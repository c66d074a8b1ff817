import QueryShape.Proofs.Typed.Added
import QueryShape.Typed.TypesUsed

/-!
# Typing documents with `__typename` fields added

If a document can be typed, then so it can with `__typename` fields added, which every type has. Its
typed form is that of the document with these fields added inside of fields and fragments.
-/

set_option autoImplicit false

namespace QueryShape.Typed

theorem Selection.Gains.under {selection other : Selection} (h : Gains false [selection] [other])
    (types : List String) (checks : List Check) :
    Gains false [selection.under types checks] [other.under types checks] := by
  induction checks generalizing selection other with
  | nil => exact h
  | cons check rest ih => exact ih (.booleanCondition check types h .nil)

theorem Selection.Gains.underDirectives {selection other : Selection}
    (h : Gains false [selection] [other]) {types : List String}
    {directives : List Source.Directive} {kept : Option Selection}
    (hkept : underDirectives types directives selection = .ok kept) :
    ∃ otherKept, Typed.underDirectives types directives other = .ok otherKept ∧
      Gains false kept.toList otherKept.toList := by
  refine ⟨_, underDirectives_of_eq_ok hkept other, ?_⟩
  rw [eq_of_underDirectives hkept]
  cases checksOf? directives with
  | none => exact .nil
  | some checks => exact h.under types checks

section

variable {schema : Schema} {fragmentType? : String → Option String}

theorem exists_allOfSource_withTypename {parent : String} {types : List String}
    {selections : List Source.Selection} {typed others : List Selection} {inside : Bool}
    (hgains : Selection.Gains inside typed others)
    (h : Selection.allOfSource schema fragmentType? parent types [] selections = .ok others) :
    ∃ gained, Selection.allOfSource schema fragmentType? parent types []
        (Source.Selection.withTypename selections) = .ok gained ∧
      Selection.Gains true typed gained := by
  rw [Source.Selection.withTypename]
  split
  · exact ⟨others, h, hgains.toInside⟩
  · have hdefinition : schema.field? parent Source.typenameName = some Schema.typenameField := rfl
    have hhead : (FieldHead.ofDefinition Schema.typenameField none Source.typenameName
        []).IsTypename := ⟨rfl, rfl, rfl⟩
    simp only [Source.Selection.typenameField, Selection.allOfSource, Selection.ofSource,
      hdefinition, Source.Selection.directives, underDirectives, h]
    split
    · exact ⟨_, rfl, .addedComposite hhead _ hgains.toInside⟩
    · exact ⟨_, rfl, .added hhead hgains.toInside⟩

theorem exists_ofSource_addTypename_field {parent : String} {types : List String}
    {aliasName : Option String} {name : String} {arguments : List Source.Argument}
    {directives : List Source.Directive} {inner : List Source.Selection}
    (hinner : ∀ {parent : String} {types : List String} {typed : List Selection},
      Selection.allOfSource schema fragmentType? parent types [] inner = .ok typed →
      ∃ gained, Selection.allOfSource schema fragmentType? parent types []
          (Source.Selection.addTypenames inner) = .ok gained ∧
        Selection.Gains false typed gained)
    {selection : Selection}
    (h : Selection.ofSource schema fragmentType? parent types
      (.field aliasName name arguments directives inner) = .ok selection) :
    ∃ other, Selection.ofSource schema fragmentType? parent types
        (Source.Selection.addTypename (.field aliasName name arguments directives inner)) =
          .ok other ∧
      Selection.Gains false [selection] [other] := by
  rw [Selection.ofSource] at h
  rw [Source.Selection.addTypename, Selection.ofSource]
  cases hdefinition : schema.field? parent name with
  | none => simp [hdefinition] at h
  | some definition =>
    simp only [hdefinition] at h ⊢
    split at h
    · rename_i hcomposite
      simp only [Outcome.bind_eq_ok, Outcome.pure_eq_ok] at h
      obtain ⟨nested, hnested, rfl⟩ := h
      obtain ⟨plain, hplain, hgainsPlain⟩ := hinner hnested
      obtain ⟨gained, hgained, hgains⟩ := exists_allOfSource_withTypename hgainsPlain hplain
      simp only [hcomposite, if_true, hgained]
      exact ⟨_, rfl, .composite _ _ hgains .nil⟩
    · rename_i hleaf
      obtain rfl := Outcome.pure_eq_ok.mp h
      simp only [hleaf]
      exact ⟨_, rfl, .leaf _ .nil⟩

theorem exists_allOfSource_addTypenames {parent : String} {types seen : List String}
    {selections : List Source.Selection} {typed : List Selection}
    (h : Selection.allOfSource schema fragmentType? parent types seen selections = .ok typed) :
    ∃ gained, Selection.allOfSource schema fragmentType? parent types seen
        (Source.Selection.addTypenames selections) = .ok gained ∧
      Selection.Gains false typed gained := by
  induction selections using Source.Selection.listInduction generalizing parent types seen typed
    with
  | nil =>
    cases h
    exact ⟨[], rfl, .nil⟩
  | field aliasName name arguments directives inner rest ihInner ih =>
    simp only [Selection.allOfSource, Source.Selection.directives, Outcome.bind_eq_ok,
      Outcome.pure_eq_ok] at h
    obtain ⟨selection, hselection, kept, hkept, others, hothers, rfl⟩ := h
    obtain ⟨gainedRest, hrest, hgainsRest⟩ := ih hothers
    obtain ⟨other, hother, hgains⟩ := exists_ofSource_addTypename_field ihInner hselection
    obtain ⟨otherKept, hotherKept, hgainsKept⟩ := hgains.underDirectives hkept
    refine ⟨otherKept.toList ++ gainedRest, ?_, hgainsKept.append hgainsRest⟩
    simp only [Source.Selection.addTypenames, Source.Selection.addTypename] at hother ⊢
    simp only [Selection.allOfSource, Source.Selection.directives, hother, hrest,
      Outcome.bind_eq_ok, Outcome.pure_eq_ok]
    exact ⟨other, rfl, otherKept, hotherKept, gainedRest, rfl, rfl⟩
  | fragmentSpread name directives rest ih =>
    simp only [Source.Selection.addTypenames, Source.Selection.addTypename]
    rw [Selection.allOfSource] at h ⊢
    split at h
    · rename_i hseen
      rw [if_pos hseen]
      exact ih h
    · rename_i hnew
      rw [if_neg hnew]
      simp only [Source.Selection.directives, Outcome.bind_eq_ok, Outcome.pure_eq_ok] at h ⊢
      obtain ⟨selection, hselection, kept, hkept, others, hothers, rfl⟩ := h
      obtain ⟨gainedRest, hrest, hgainsRest⟩ := ih hothers
      refine ⟨kept.toList ++ gainedRest,
        ⟨selection, hselection, kept, hkept, gainedRest, hrest, rfl⟩, ?_⟩
      exact .append (.refl _) hgainsRest
  | inlineFragment condition directives inner rest ihInner ih =>
    simp only [Selection.allOfSource, Source.Selection.directives, Outcome.bind_eq_ok,
      Outcome.pure_eq_ok] at h
    obtain ⟨selection, hselection, kept, hkept, others, hothers, rfl⟩ := h
    simp only [Selection.ofSource, Outcome.bind_eq_ok, Outcome.pure_eq_ok] at hselection
    obtain ⟨typedInner, hinner, rfl⟩ := hselection
    obtain ⟨gainedInner, hgainedInner, hgains⟩ := ihInner hinner
    obtain ⟨gainedRest, hrest, hgainsRest⟩ := ih hothers
    have hcondition := @Selection.Gains.typeCondition false (condition.getD parent)
      (PossibleTypes.intersect types (schema.possibleTypes (condition.getD parent))) _ _ _ _ hgains
      .nil
    obtain ⟨otherKept, hotherKept, hgainsKept⟩ := hcondition.underDirectives hkept
    refine ⟨otherKept.toList ++ gainedRest, ?_, hgainsKept.append hgainsRest⟩
    simp only [Source.Selection.addTypenames, Source.Selection.addTypename, Selection.allOfSource,
      Selection.ofSource, Source.Selection.directives, Outcome.bind_eq_ok, Outcome.pure_eq_ok]
    exact ⟨_, ⟨gainedInner, hgainedInner, rfl⟩, otherKept, hotherKept, gainedRest, hrest, rfl⟩

variable {filePath : Option String}

theorem exists_ofSource_addTypename_fragment {written : Source.Fragment} {fragment : Fragment}
    (h : Fragment.ofSource schema fragmentType? filePath written = .ok fragment) :
    ∃ other, Fragment.ofSource schema fragmentType? filePath written.addTypename = .ok other ∧
      fragment.Gains other := by
  obtain ⟨set, hset, rfl⟩ := Fragment.ofSource_eq_ok.mp h
  simp only [SelectionSet.ofSource, Outcome.bind_eq_ok, Outcome.pure_eq_ok] at hset
  obtain ⟨typed, htyped, rfl⟩ := hset
  obtain ⟨plain, hplain, hgainsPlain⟩ := exists_allOfSource_addTypenames htyped
  obtain ⟨gained, hgained, hgains⟩ := exists_allOfSource_withTypename hgainsPlain hplain
  refine ⟨_, Fragment.ofSource_eq_ok.mpr ⟨⟨_, gained⟩, ?_, rfl⟩, rfl, rfl, hgains⟩
  simp only [SelectionSet.ofSource, Source.Fragment.addTypename, hgained]
  rfl

theorem exists_ofSource_addTypename_operation {written : Source.Operation} {operation : Operation}
    (h : Operation.ofSource schema fragmentType? filePath written = .ok operation) :
    ∃ other, Operation.ofSource schema fragmentType? filePath written.addTypename = .ok other ∧
      operation.Gains other := by
  obtain ⟨name, hname, root, hroot, set, hset, rfl⟩ := Operation.ofSource_eq_ok.mp h
  simp only [SelectionSet.ofSource, Outcome.bind_eq_ok, Outcome.pure_eq_ok] at hset
  obtain ⟨typed, htyped, rfl⟩ := hset
  obtain ⟨gained, hgained, hgains⟩ := exists_allOfSource_addTypenames htyped
  refine ⟨_, Operation.ofSource_eq_ok.mpr ⟨name, hname, root, hroot, ⟨_, gained⟩, ?_, rfl⟩, rfl,
    rfl, hgains⟩
  simp only [SelectionSet.ofSource, Source.Operation.addTypename, hgained]
  rfl

theorem filter_allFieldTypes_withTypename (hstring : schema.isDeclared "String" = false)
    (parent : String) (selections : List Source.Selection) :
    (allFieldTypes schema parent (Source.Selection.withTypename selections)).filter
        schema.isDeclared =
      (allFieldTypes schema parent selections).filter schema.isDeclared := by
  have hdefinition : schema.field? parent Source.typenameName = some Schema.typenameField := rfl
  have hinner : Schema.typenameField.type.innermost = "String" := rfl
  rw [Source.Selection.withTypename]
  split
  · rfl
  · simp [Source.Selection.typenameField, allFieldTypes, fieldTypes, hdefinition, hinner, hstring]

theorem filter_allFieldTypes_addTypenames (hstring : schema.isDeclared "String" = false)
    (parent : String) (selections : List Source.Selection) :
    (allFieldTypes schema parent (Source.Selection.addTypenames selections)).filter
        schema.isDeclared =
      (allFieldTypes schema parent selections).filter schema.isDeclared := by
  induction selections using Source.Selection.listInduction generalizing parent with
  | nil => rfl
  | field aliasName name arguments directives inner rest ihInner ih =>
    simp only [Source.Selection.addTypenames, Source.Selection.addTypename, allFieldTypes,
      fieldTypes, List.filter_append, ih]
    cases schema.field? parent name with
    | none => rfl
    | some definition =>
      simp only [List.filter_cons]
      cases schema.isComposite definition.type.innermost with
      | false => rfl
      | true => simp only [if_true, filter_allFieldTypes_withTypename hstring, ihInner]
  | fragmentSpread name directives rest ih =>
    simp only [Source.Selection.addTypenames, Source.Selection.addTypename, allFieldTypes,
      List.filter_append, ih, fieldTypes]
  | inlineFragment condition directives inner rest ihInner ih =>
    simp only [Source.Selection.addTypenames, Source.Selection.addTypename, allFieldTypes,
      fieldTypes, List.filter_append, ihInner, ih]

theorem usedTypes_addTypename (hstring : schema.isDeclared "String" = false)
    (document : Source.Document) :
    usedTypes schema document.addTypename = usedTypes schema document := by
  have hmentioned : (mentionedTypes schema document.addTypename).filter schema.isDeclared =
      (mentionedTypes schema document).filter schema.isDeclared := by
    simp only [mentionedTypes, Source.Document.fragments_addTypename,
      Source.Document.operations_addTypename, List.flatMap_map, List.filter_append,
      List.filter_flatMap, Source.Fragment.addTypename, Source.Operation.addTypename,
      operationTypes, filter_allFieldTypes_withTypename hstring,
      filter_allFieldTypes_addTypenames hstring]
    congr 1
    apply List.flatMap_congr
    intro operation _
    cases schema.rootType? operation.kind with
    | none => rfl
    | some root => simp only [filter_allFieldTypes_addTypenames hstring]
  rw [usedTypes, usedTypes, hmentioned]

end

/-- What is compiled without `__typename` fields can be compiled with them added. -/
theorem Document.exists_compile_addTypename {schema : Schema} {options : Options}
    {filePath : Option String} {source : Source.Document} {document : Document}
    (h : compile schema { options with addTypename := false } filePath source = .ok document) :
    ∃ extended,
      compile schema { options with addTypename := true } filePath source = .ok extended ∧
      document.Gains extended ∧
      (schema.isDeclared "String" = false → extended.typesUsed = document.typesUsed) := by
  simp only [compile, Outcome.guard_eq_ok, Outcome.mapError_eq_ok, Bool.false_eq_true, if_false,
    if_true] at h ⊢
  obtain ⟨htypes, hdecided, hvalid, htyped⟩ := h
  simp only [ofSource, Outcome.bind_eq_ok, Outcome.pure_eq_ok] at htyped
  obtain ⟨fragments, hfragments, operations, hoperations, rfl⟩ := htyped
  obtain ⟨otherFragments, hotherFragments, hgainsFragments⟩ :=
    Outcome.exists_mapM_map Source.Fragment.addTypename hfragments
      fun _ _ => exists_ofSource_addTypename_fragment
  obtain ⟨otherOperations, hotherOperations, hgainsOperations⟩ :=
    Outcome.exists_mapM_map Source.Operation.addTypename hoperations
      fun _ _ => exists_ofSource_addTypename_operation
  refine ⟨⟨otherOperations, otherFragments, usedTypes schema source.addTypename⟩,
    ⟨htypes, hdecided, hvalid, ?_⟩, ⟨hgainsOperations, hgainsFragments⟩,
    fun hstring => usedTypes_addTypename hstring source⟩
  simp only [ofSource, Source.Document.fragment?_addTypename, Option.map_map,
    Source.Document.fragments_addTypename, Source.Document.operations_addTypename,
    Outcome.bind_eq_ok, Outcome.pure_eq_ok]
  exact ⟨_, hotherFragments, _, hotherOperations, rfl⟩

end QueryShape.Typed
