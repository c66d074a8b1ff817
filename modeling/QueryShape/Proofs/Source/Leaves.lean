import QueryShape.Proofs.Schema.Interfaces
import QueryShape.Proofs.Source.Fragments

/-!
# Selections end at leaves

In a valid document nothing is selected below a field whose type is not composite, and this remains
so when `__typename` fields are added.
-/

set_option autoImplicit false

namespace QueryShape.Source

mutual

/-- In a selection on the parent type, whatever is selected below a field is selected on a composite
type. -/
def Selection.EndsAtLeaves (schema : Schema) (parent : String) : Selection → Prop
  | .field _ name _ _ selections => ∀ definition, schema.field? parent name = some definition →
    (schema.isComposite definition.type.innermost = false → selections = []) ∧
      Selection.AllEndAtLeaves schema definition.type.innermost selections
  | .fragmentSpread _ _ => True
  | .inlineFragment condition _ selections =>
    Selection.AllEndAtLeaves schema (condition.getD parent) selections

def Selection.AllEndAtLeaves (schema : Schema) (parent : String) : List Selection → Prop
  | [] => True
  | selection :: rest =>
    Selection.EndsAtLeaves schema parent selection ∧ Selection.AllEndAtLeaves schema parent rest

end

structure Document.EndsAtLeaves (schema : Schema) (document : Document) : Prop where
  operation : ∀ operation ∈ document.operations, ∀ root,
    schema.rootType? operation.kind = some root →
      Selection.AllEndAtLeaves schema root operation.selections
  fragment : ∀ fragment ∈ document.fragments,
    Selection.AllEndAtLeaves schema fragment.typeCondition fragment.selections

namespace Selection

theorem allEndAtLeaves_withTypename {schema : Schema} {parent : String}
    {selections : List Selection} (h : AllEndAtLeaves schema parent selections) :
    AllEndAtLeaves schema parent (withTypename selections) := by
  rw [withTypename]
  split
  · exact h
  · refine ⟨fun definition _ => ⟨fun _ => rfl, trivial⟩, h⟩

theorem allEndAtLeaves_addTypenames {schema : Schema} {parent : String}
    {selections : List Selection} (h : AllEndAtLeaves schema parent selections) :
    AllEndAtLeaves schema parent (addTypenames selections) := by
  induction selections using listInduction generalizing parent with
  | nil => exact h
  | field aliasName name arguments directives inner rest ihInner ih =>
    obtain ⟨hfield, hrest⟩ := h
    refine ⟨fun definition hdefinition => ?_, ih hrest⟩
    obtain ⟨hleaf, hinner⟩ := hfield definition hdefinition
    refine ⟨fun hnot => ?_, allEndAtLeaves_withTypename (ihInner hinner)⟩
    rw [hleaf hnot]
    rfl
  | fragmentSpread name directives rest ih => exact ⟨trivial, ih h.2⟩
  | inlineFragment condition directives inner rest ihInner ih => exact ⟨ihInner h.1, ih h.2⟩

end Selection

end QueryShape.Source

namespace QueryShape.Validity

variable {schema : Schema}

/-- Fields have selections if and only if their types are no leaves, and inline fragments are on
composite types. -/
structure SitesFit (schema : Schema) (sites : List Site) : Prop where
  field : ∀ site ∈ fieldSites sites, leafSelected schema site = true
  inline : ∀ site ∈ inlineSites sites, ∀ condition ∈ site.typeCondition,
    schema.isComposite condition = true

theorem SitesFit.append {first second : List Site} (h : SitesFit schema (first ++ second)) :
    SitesFit schema first ∧ SitesFit schema second := by
  obtain ⟨hfield, hinline⟩ := h
  simp only [fieldSites, inlineSites, List.filterMap_append, List.mem_append] at hfield hinline
  exact ⟨⟨fun site h => hfield site (.inl h), fun site h => hinline site (.inl h)⟩,
    ⟨fun site h => hfield site (.inr h), fun site h => hinline site (.inr h)⟩⟩

theorem SitesFit.tail {site : Site} {sites : List Site} (h : SitesFit schema (site :: sites)) :
    SitesFit schema sites :=
  (show SitesFit schema ([site] ++ sites) from h).append.2

theorem allEndAtLeaves_of_sitesFit (houtput : schema.hasOutputTypes = true) {parent : String}
    {selections : List Source.Selection}
    (h : SitesFit schema (allSites schema (some parent) selections)) :
    Source.Selection.AllEndAtLeaves schema parent selections := by
  induction selections using Source.Selection.listInduction generalizing parent with
  | nil => trivial
  | field aliasName name arguments directives inner rest ihInner ih =>
    rw [allSites, selectionSites] at h
    obtain ⟨hfirst, hrest⟩ := h.append
    refine ⟨fun definition hdefinition => ?_, ih hrest⟩
    have hsite := hfirst.field _ List.mem_cons_self
    have hinner := hfirst.tail
    simp only [leafSelected, fieldSite, Option.bind_some, hdefinition] at hsite
    simp only [FieldSite.innerParent, fieldSite, Option.bind_some, hdefinition] at hinner
    cases hcomposite : schema.isComposite definition.type.innermost with
    | true =>
      rw [composite?, if_pos hcomposite] at hinner
      exact ⟨by simp, ihInner hinner⟩
    | false =>
      rw [Schema.isLeaf_of_field? houtput hdefinition hcomposite] at hsite
      obtain rfl : inner = [] := by simpa using hsite
      exact ⟨fun _ => rfl, trivial⟩
  | fragmentSpread name directives rest ih => exact ⟨trivial, ih h.append.2⟩
  | inlineFragment condition directives inner rest ihInner ih =>
    rw [allSites, selectionSites] at h
    obtain ⟨hfirst, hrest⟩ := h.append
    have hinner := hfirst.tail
    refine ⟨ihInner ?_, ih hrest⟩
    cases condition with
    | none => exact hinner
    | some condition =>
      have hcomposite : schema.isComposite condition = true :=
        hfirst.inline _ List.mem_cons_self condition rfl
      rwa [conditionParent, composite?, if_pos hcomposite] at hinner

variable {document : Source.Document}

theorem isComposite_of_typeConditions (h : isValid schema document = true) {name : String}
    (hname : name ∈ typeConditions schema document) : schema.isComposite name = true := by
  have hknown := List.all_eq_true.mp
    (Bool.and_eq_true_iff.mp (follows_of_isValid h .knownTypeNames (by decide))).2 name hname
  have hcomposite := List.all_eq_true.mp
    (follows_of_isValid h .fragmentsOnCompositeTypes (by decide)) name hname
  rw [Schema.isComposite, Schema.typeIs]
  rw [Schema.body?] at hcomposite ⊢
  obtain ⟨type, htype⟩ := Option.isSome_iff_exists.mp hknown
  rw [htype] at hcomposite ⊢
  exact hcomposite

theorem sitesFit_of_mem_parts (h : isValid schema document = true) {part : Part}
    (hpart : part ∈ parts schema document) : SitesFit schema part.sites where
  field site hsite :=
    List.all_eq_true.mp
      (List.all_eq_true.mp (follows_of_isValid h .leafSelections (by decide)) part hpart) site hsite
  inline site hsite condition hcondition := by
    apply isComposite_of_typeConditions h
    apply List.mem_append_right
    exact List.mem_flatMap.mpr ⟨part, hpart, List.mem_filterMap.mpr ⟨site, hsite, hcondition⟩⟩

theorem endsAtLeaves_of_isValid (houtput : schema.hasOutputTypes = true)
    (htypes : typesValid schema = true) (h : isValid schema document = true) :
    document.EndsAtLeaves schema where
  operation operation hmem root hroot := by
    apply allEndAtLeaves_of_sitesFit houtput
    have hfit : SitesFit schema (operationSites schema operation) :=
      sitesFit_of_mem_parts h (List.mem_append_left _ (List.mem_map_of_mem hmem))
    rwa [operationSites, operationParent, hroot, Option.bind_some,
      if_pos (Schema.isObject_of_rootType? htypes hroot)] at hfit
  fragment fragment hmem := by
    apply allEndAtLeaves_of_sitesFit houtput
    have hcomposite := isComposite_of_typeConditions h
      (List.mem_append_left _ (List.mem_map_of_mem hmem))
    have hfit : SitesFit schema (fragmentSites schema fragment) :=
      sitesFit_of_mem_parts h (List.mem_append_right _ (List.mem_map_of_mem hmem))
    rwa [fragmentSites, fragmentParent, composite?, if_pos hcomposite] at hfit

end QueryShape.Validity

namespace QueryShape.Source.Document

theorem EndsAtLeaves.prepared {schema : Schema} {document : Document}
    (h : document.EndsAtLeaves schema) (options : Options) :
    (document.prepared options).EndsAtLeaves schema := by
  rw [Document.prepared]
  split
  · constructor
    · rw [operations_addTypename]
      intro operation hoperation root hroot
      obtain ⟨original, horiginal, rfl⟩ := List.mem_map.mp hoperation
      exact Selection.allEndAtLeaves_addTypenames (h.operation original horiginal root hroot)
    · rw [fragments_addTypename]
      intro fragment hfragment
      obtain ⟨original, horiginal, rfl⟩ := List.mem_map.mp hfragment
      exact Selection.allEndAtLeaves_withTypename
        (Selection.allEndAtLeaves_addTypenames (h.fragment original horiginal))
  · exact h

end QueryShape.Source.Document
