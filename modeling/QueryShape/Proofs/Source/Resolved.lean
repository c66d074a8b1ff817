import QueryShape.Proofs.Schema.StandardConditions
import QueryShape.Proofs.Source.Leaves
import QueryShape.Proofs.Typed.Directives
import QueryShape.Schema.Composite

/-!
# What valid documents refer to

In a valid document fields and fragments that are named exist, selections are made on composite
types and below every field of such a type, and conditions are truth values or variables. This
remains so when `__typename` fields are added.
-/

set_option autoImplicit false

namespace QueryShape.Schema

def HasPossibleTypes (schema : Schema) (name : String) : Prop :=
  schema.possibleTypesOf (.named name) = .ok (schema.possibleTypes name)

theorem hasPossibleTypes_of_isComposite {schema : Schema} {name : String}
    (h : schema.isComposite name = true) : schema.HasPossibleTypes name :=
  if_pos h

end QueryShape.Schema

namespace QueryShape.Source

mutual

/-- What a selection on the parent type refers to is there, at every depth. -/
def Selection.Resolves (schema : Schema) (fragmentType? : String → Option String)
    (parent : String) : Selection → Prop
  | .field _ name _ directives selections =>
    (∀ directive ∈ directives, directive.isMalformed = false) ∧
      ∃ definition, schema.field? parent name = some definition ∧
        (schema.isComposite definition.type.innermost = true → selections ≠ [] ∧
          Selection.AllResolve schema fragmentType? definition.type.innermost selections)
  | .fragmentSpread name directives =>
    (∀ directive ∈ directives, directive.isMalformed = false) ∧
      ∃ type, fragmentType? name = some type ∧ schema.HasPossibleTypes type
  | .inlineFragment condition directives selections =>
    (∀ directive ∈ directives, directive.isMalformed = false) ∧
      schema.HasPossibleTypes (condition.getD parent) ∧
        Selection.AllResolve schema fragmentType? (condition.getD parent) selections

def Selection.AllResolve (schema : Schema) (fragmentType? : String → Option String)
    (parent : String) : List Selection → Prop
  | [] => True
  | selection :: rest =>
    Selection.Resolves schema fragmentType? parent selection ∧
      Selection.AllResolve schema fragmentType? parent rest

end

/-- What the operations and fragments of a document refer to is there. Operations without a root
type are asked for the types of their variables only. -/
structure Document.Resolves (schema : Schema) (document : Document) : Prop where
  condition : ∀ fragment ∈ document.fragments, schema.HasPossibleTypes fragment.typeCondition
  fragment : ∀ fragment ∈ document.fragments,
    Selection.AllResolve schema document.fragmentType? fragment.typeCondition fragment.selections
  variableType : ∀ operation ∈ document.operations,
    ∀ definition ∈ operation.variableDefinitions, (schema.type? definition.type.innermost).isSome
  root : ∀ operation ∈ document.operations, ∀ root, schema.rootType? operation.kind = some root →
    schema.HasPossibleTypes root
  operation : ∀ operation ∈ document.operations, ∀ root,
    schema.rootType? operation.kind = some root →
      Selection.AllResolve schema document.fragmentType? root operation.selections

namespace Selection

variable {schema : Schema} {fragmentType? : String → Option String} {parent : String}
  {selections : List Selection}

theorem withTypename_ne_nil (h : selections ≠ []) : withTypename selections ≠ [] := by
  rw [withTypename]
  split
  · exact h
  · exact List.cons_ne_nil _ _

theorem addTypenames_ne_nil (h : selections ≠ []) : addTypenames selections ≠ [] := by
  rw [addTypenames_eq_map]
  exact mt List.map_eq_nil_iff.mp h

section

variable (hstring : schema.isComposite "String" = false)
include hstring

theorem allResolve_withTypename (h : AllResolve schema fragmentType? parent selections) :
    AllResolve schema fragmentType? parent (withTypename selections) := by
  rw [withTypename]
  split
  · exact h
  · refine ⟨⟨List.forall_mem_nil _, Schema.typenameField, rfl, fun hcomposite => ?_⟩, h⟩
    exact absurd hcomposite (Bool.not_eq_true _ ▸ hstring)

theorem allResolve_addTypenames (h : AllResolve schema fragmentType? parent selections) :
    AllResolve schema fragmentType? parent (addTypenames selections) := by
  induction selections using listInduction generalizing parent with
  | nil => exact h
  | field aliasName name arguments directives inner rest ihInner ih =>
    obtain ⟨⟨hformed, definition, hdefinition, hinner⟩, hrest⟩ := h
    refine ⟨⟨hformed, definition, hdefinition, fun hcomposite => ?_⟩, ih hrest⟩
    obtain ⟨hne, hinner⟩ := hinner hcomposite
    exact ⟨withTypename_ne_nil (addTypenames_ne_nil hne),
      allResolve_withTypename hstring (ihInner hinner)⟩
  | fragmentSpread name directives rest ih => exact ⟨h.1, ih h.2⟩
  | inlineFragment condition directives inner rest ihInner ih =>
    obtain ⟨⟨hformed, hcomposite, hinner⟩, hrest⟩ := h
    exact ⟨⟨hformed, hcomposite, ihInner hinner⟩, ih hrest⟩

end

end Selection

namespace Document

variable {schema : Schema} {document : Document}

theorem fragmentType?_addTypename :
    document.addTypename.fragmentType? = document.fragmentType? := by
  funext name
  rw [fragmentType?, fragmentType?, fragment?_addTypename, Option.map_map]
  rfl

theorem Resolves.prepared (hstring : schema.isComposite "String" = false)
    (h : document.Resolves schema) (options : Options) :
    (document.prepared options).Resolves schema := by
  rw [Document.prepared]
  split
  · constructor
    · rw [fragments_addTypename]
      exact List.forall_mem_map.mpr h.condition
    · rw [fragments_addTypename, fragmentType?_addTypename]
      exact List.forall_mem_map.mpr fun fragment hfragment =>
        Selection.allResolve_withTypename hstring
          (Selection.allResolve_addTypenames hstring (h.fragment fragment hfragment))
    · rw [operations_addTypename]
      exact List.forall_mem_map.mpr h.variableType
    · rw [operations_addTypename]
      exact List.forall_mem_map.mpr h.root
    · rw [operations_addTypename, fragmentType?_addTypename]
      exact List.forall_mem_map.mpr fun operation hoperation root hroot =>
        Selection.allResolve_addTypenames hstring (h.operation operation hoperation root hroot)
  · exact h

end Document

end QueryShape.Source

namespace QueryShape.Validity

open Source (Value Directive)

variable {schema : Schema}

section

variable (hstandard : schema.HasStandardConditions)
include hstandard

theorem var_or_boolean_of_fits {value : Value}
    (h : fits schema (some (.nonNull (.named "Boolean"))) value = true) :
    (∃ name, value = .var name) ∨ ∃ truth, value = .boolean truth := by
  have hboolean := hstandard.scalar "Boolean" (by decide)
  have hleaf : fitsLeaf schema (some (.nonNull (.named "Boolean"))) value = true →
      ∃ truth, value = .boolean truth := by
    simp only [fitsLeaf, Option.all_some, TypeRef.innermost, hboolean, Schema.isOfLeaf]
    cases value <;> simp [Schema.isOfScalar]
  cases value with
  | var name => exact .inl ⟨name, rfl⟩
  | null => simp [fits, TypeRef.isNonNull] at h
  | object fields =>
    have hfields : expectedFields? schema (some (.nonNull (.named "Boolean"))) = none := by
      simp [expectedFields?, TypeRef.innermost, hboolean]
    rw [fits, hfields] at h
    exact .inr (hleaf h)
  | int _ | float _ | string _ _ | boolean _ | enum _ | list _ => exact .inr (hleaf h)

theorem isMalformed_of_argumentsFit {directive : Directive}
    (hgiven : argumentsGiven (directiveCall schema directive) = true)
    (hfit : argumentsFit schema (directiveCall schema directive) = true) :
    directive.isMalformed = false := by
  rw [Directive.isMalformed, Bool.and_eq_false_imp]
  intro hcondition
  -- Only the two standard directives decide, and both are declared with one argument.
  have hname : directive.name ∈ ["skip", "include"] := by
    rw [Typed.conditionPolarity?] at hcondition
    by_contra hnot
    simp_all
  have hdeclared : (directiveCall schema directive).declared =
      some [Schema.requiredArgument "if" "Boolean"] := by
    rw [directiveCall, hstandard.directive _ hname]
    rfl
  obtain ⟨argument, hfound⟩ :
      ∃ argument, directive.arguments.find? (·.name == "if") = some argument := by
    rw [argumentsGiven, hdeclared] at hgiven
    rw [← Option.isSome_iff_exists, List.find?_isSome]
    simpa [Schema.requiredArgument, Schema.InputValue.isRequired, TypeRef.isNonNull,
      Schema.InputValue.hasDefault, directiveCall] using hgiven
  have hif : argument.name = "if" := by simpa using List.find?_some hfound
  have hfits := List.all_eq_true.mp hfit argument (List.mem_of_find?_eq_some hfound)
  rw [Call.declaration?, hdeclared, hif] at hfits
  rw [Typed.argumentValue?, hfound, Option.map_some]
  rcases var_or_boolean_of_fits hstandard hfits with ⟨_, hvalue⟩ | ⟨_, hvalue⟩
  · rw [hvalue]
  · rw [hvalue]

end

def Site.Resolves (schema : Schema) (fragmentType? : String → Option String) (site : Site) : Prop :=
  (∀ directive ∈ site.directivePlace.directives, directive.isMalformed = false) ∧
    match site with
    | .field site =>
      leafSelected schema site = true ∧ (site.parent.isSome = true → site.definition.isSome = true)
    | .spread site => ∃ type, fragmentType? site.name = some type ∧ schema.isComposite type = true
    | .inline site => ∀ condition ∈ site.typeCondition, schema.isComposite condition = true

theorem allResolve_of_sites {fragmentType? : String → Option String} {parent : String}
    (hparent : schema.isComposite parent = true) {selections : List Source.Selection}
    (h : ∀ site ∈ allSites schema (some parent) selections, site.Resolves schema fragmentType?) :
    Source.Selection.AllResolve schema fragmentType? parent selections := by
  induction selections using Source.Selection.listInduction generalizing parent with
  | nil => trivial
  | field aliasName name arguments directives inner rest ihInner ih =>
    rw [allSites, selectionSites, List.cons_append, List.forall_mem_cons,
      List.forall_mem_append] at h
    obtain ⟨⟨hformed, hleaf, hdefined⟩, hinner, hrest⟩ := h
    obtain ⟨definition, hdefinition⟩ := Option.isSome_iff_exists.mp (hdefined rfl)
    refine ⟨⟨hformed, definition, hdefinition, fun hcomposite => ?_⟩, ih hparent hrest⟩
    -- The sites below the field are on its type, which is composite and so no leaf.
    rw [FieldSite.innerParent, hdefinition, Option.bind_some, composite?, if_pos hcomposite]
      at hinner
    simp only [leafSelected, hdefinition, Schema.isLeaf_of_isComposite hcomposite] at hleaf
    exact ⟨by simpa [fieldSite] using hleaf, ihInner hcomposite hinner⟩
  | fragmentSpread name directives rest ih =>
    rw [allSites, selectionSites, List.singleton_append, List.forall_mem_cons] at h
    obtain ⟨⟨hformed, type, htype, hcomposite⟩, hrest⟩ := h
    exact ⟨⟨hformed, type, htype, Schema.hasPossibleTypes_of_isComposite hcomposite⟩,
      ih hparent hrest⟩
  | inlineFragment condition directives inner rest ihInner ih =>
    rw [allSites, selectionSites, List.cons_append, List.forall_mem_cons,
      List.forall_mem_append] at h
    obtain ⟨⟨hformed, hcondition⟩, hinner, hrest⟩ := h
    cases condition with
    | none =>
      exact ⟨⟨hformed, Schema.hasPossibleTypes_of_isComposite hparent, ihInner hparent hinner⟩,
        ih hparent hrest⟩
    | some condition =>
      have hcomposite : schema.isComposite condition = true := hcondition condition rfl
      rw [conditionParent, composite?, if_pos hcomposite] at hinner
      exact ⟨⟨hformed, Schema.hasPossibleTypes_of_isComposite hcomposite,
        ihInner hcomposite hinner⟩, ih hparent hrest⟩

variable {document : Source.Document}

theorem directiveCall_mem_calls {part : Part} (hpart : part ∈ parts schema document) {site : Site}
    (hsite : site ∈ part.sites) {directive : Directive}
    (hdirective : directive ∈ site.directivePlace.directives) :
    directiveCall schema directive ∈ part.calls := by
  obtain ⟨hcalls, hplace⟩ : part.calls = calls schema part.sites part.places ∧
      site.directivePlace ∈ part.places := by
    rcases List.mem_append.mp hpart with hpart | hpart
    · obtain ⟨operation, _, rfl⟩ := List.mem_map.mp hpart
      exact ⟨rfl, List.mem_append_right _ (List.mem_map_of_mem hsite)⟩
    · obtain ⟨fragment, _, rfl⟩ := List.mem_map.mp hpart
      exact ⟨rfl, List.mem_cons_of_mem _ (List.mem_map_of_mem hsite)⟩
  rw [hcalls]
  apply List.mem_append_right
  exact List.mem_flatMap.mpr ⟨_, hplace, List.mem_map_of_mem hdirective⟩

theorem resolves_of_mem_parts (hstandard : schema.HasStandardConditions)
    (h : isValid schema document = true) {part : Part} (hpart : part ∈ parts schema document)
    {site : Site} (hsite : site ∈ part.sites) :
    site.Resolves schema document.fragmentType? := by
  constructor
  · intro directive hdirective
    have hcall := directiveCall_mem_calls hpart hsite hdirective
    have hgiven := follows_of_isValid h .requiredArguments (by decide)
    have hfit := (Bool.and_eq_true_iff.mp (follows_of_isValid h .fittingValues (by decide))).1
    exact isMalformed_of_argumentsFit hstandard
      (List.all_eq_true.mp (List.all_eq_true.mp hgiven part hpart) _ hcall)
      (List.all_eq_true.mp (List.all_eq_true.mp hfit part hpart) _ hcall)
  · have hfit := sitesFit_of_mem_parts h hpart
    cases site with
    | field site =>
      have hmem : site ∈ fieldSites part.sites := List.mem_filterMap.mpr ⟨_, hsite, rfl⟩
      have hdefined := List.all_eq_true.mp
        (List.all_eq_true.mp (follows_of_isValid h .definedFields (by decide)) part hpart) site hmem
      refine ⟨hfit.field site hmem, fun hparent => ?_⟩
      simpa [Option.isSome_iff_ne_none.mp hparent] using hdefined
    | spread site =>
      have hmem : site.name ∈ spreadNames part.sites :=
        List.mem_map_of_mem (List.mem_filterMap.mpr ⟨_, hsite, rfl⟩)
      have hknown := List.all_eq_true.mp
        (List.all_eq_true.mp (follows_of_isValid h .knownFragmentNames (by decide)) part hpart)
        _ hmem
      obtain ⟨fragment, hfragment⟩ := Option.isSome_iff_exists.mp hknown
      refine ⟨fragment.typeCondition, by rw [Source.Document.fragmentType?, hfragment]; rfl, ?_⟩
      apply isComposite_of_typeConditions h
      apply List.mem_append_left
      exact List.mem_map_of_mem (Source.Document.mem_of_fragment? hfragment).1
    | inline site => exact hfit.inline site (List.mem_filterMap.mpr ⟨_, hsite, rfl⟩)

/-- What a valid document refers to is there. -/
theorem resolves_of_isValid (hstandard : schema.HasStandardConditions)
    (htypes : typesValid schema = true) (h : isValid schema document = true) :
    document.Resolves schema := by
  have hcondition : ∀ fragment ∈ document.fragments,
      schema.isComposite fragment.typeCondition = true := fun fragment hfragment =>
    isComposite_of_typeConditions h (List.mem_append_left _ (List.mem_map_of_mem hfragment))
  have hroot : ∀ {kind root}, schema.rootType? kind = some root →
      schema.isComposite root = true := fun hroot =>
    Schema.isComposite_of_isObject (Schema.isObject_of_rootType? htypes hroot)
  refine ⟨fun fragment hfragment => Schema.hasPossibleTypes_of_isComposite
      (hcondition fragment hfragment), fun fragment hfragment => ?_,
    fun operation hoperation definition hmem => ?_,
    fun _ _ _ hoperationRoot => Schema.hasPossibleTypes_of_isComposite (hroot hoperationRoot),
    fun operation hoperation root hoperationRoot => ?_⟩
  · apply allResolve_of_sites (hcondition fragment hfragment)
    intro site hsite
    have hpart : Part.ofFragment schema fragment ∈ parts schema document :=
      List.mem_append_right _ (List.mem_map_of_mem hfragment)
    apply resolves_of_mem_parts hstandard h hpart
    rw [Part.ofFragment, fragmentSites, fragmentParent, composite?,
      if_pos (hcondition fragment hfragment)]
    exact hsite
  · have hknown := (Bool.and_eq_true_iff.mp (follows_of_isValid h .knownTypeNames (by decide))).1
    exact List.all_eq_true.mp hknown definition
      (List.mem_flatMap.mpr ⟨operation, hoperation, hmem⟩)
  · apply allResolve_of_sites (hroot hoperationRoot)
    intro site hsite
    have hpart : Part.ofOperation schema operation ∈ parts schema document :=
      List.mem_append_left _ (List.mem_map_of_mem hoperation)
    apply resolves_of_mem_parts hstandard h hpart
    rw [Part.ofOperation, operationSites, operationParent, hoperationRoot, Option.bind_some,
      if_pos (Schema.isObject_of_rootType? htypes hoperationRoot)]
    exact hsite

end QueryShape.Validity
