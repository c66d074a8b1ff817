import QueryShape.Proofs.Outcome
import QueryShape.Schema.OfText

/-!
# Types of fields

Every field of a schema has a leaf type or a composite type. This is so for all schemas that are
read from texts, and reading a schema gives no other ones.
-/

set_option autoImplicit false

namespace QueryShape.Schema

def isOutput (schema : Schema) (name : String) : Bool :=
  schema.typeIs (fun body => body.isLeaf || body.isComposite) name

/-- Whether all fields, those that exist without being defined included, have types that exist and
are no input objects. -/
def hasOutputTypes (schema : Schema) : Bool :=
  (schema.types.flatMap (·.body.fields) ++ [typenameField, schemaField, typeField]).all fun field =>
    schema.isOutput field.type.innermost

section

variable {schema : Schema}

theorem mem_of_type? {name : String} {type : NamedType} (h : schema.type? name = some type) :
    type ∈ schema.types ∧ type.name = name :=
  ⟨List.mem_of_find?_eq_some h, by simpa using List.find?_some h⟩

theorem exists_type_of_field? {parent name : String} {field : Field}
    (h : schema.field? parent name = some field) :
    field ∈ schema.types.flatMap (·.body.fields) ++ [typenameField, schemaField, typeField] := by
  rw [field?] at h
  split at h
  · cases h
    simp
  split at h
  · cases h
    simp
  split at h
  · cases h
    simp
  · obtain ⟨body, hbody, hfield⟩ := Option.bind_eq_some_iff.mp h
    obtain ⟨type, htype, rfl⟩ := Option.map_eq_some_iff.mp hbody
    apply List.mem_append_left
    exact List.mem_flatMap.mpr ⟨type, (mem_of_type? htype).1, List.mem_of_find?_eq_some hfield⟩

theorem isLeaf_of_field? (h : schema.hasOutputTypes = true) {parent name : String} {field : Field}
    (hfield : schema.field? parent name = some field)
    (hnot : schema.isComposite field.type.innermost = false) :
    schema.typeIs TypeBody.isLeaf field.type.innermost = true := by
  have houtput := List.all_eq_true.mp h field (exists_type_of_field? hfield)
  rw [isComposite, typeIs] at hnot
  rw [isOutput, typeIs] at houtput
  rw [typeIs]
  cases hbody : schema.body? field.type.innermost with
  | none => simp [hbody] at houtput
  | some body =>
    rw [hbody] at houtput hnot
    simpa [show body.isComposite = false from hnot] using houtput

theorem isComposite_of_scalar {name : String} (h : schema.body? name = some .scalar) :
    schema.isComposite name = false := by
  rw [isComposite, typeIs, h]
  rfl

theorem isComposite_of_isObject {name : String} (h : schema.typeIs TypeBody.isObject name = true) :
    schema.isComposite name = true := by
  rw [typeIs, Option.any_eq_true] at h
  obtain ⟨body, hbody, hobject⟩ := h
  rw [isComposite, typeIs, hbody]
  cases body <;> simp_all [TypeBody.isObject, TypeBody.isComposite]

theorem isLeaf_of_isComposite {name : String} (h : schema.isComposite name = true) :
    schema.typeIs TypeBody.isLeaf name = false := by
  rw [isComposite, typeIs, Option.any_eq_true] at h
  obtain ⟨body, hbody, hcomposite⟩ := h
  rw [typeIs, hbody]
  cases body <;> simp_all [TypeBody.isLeaf, TypeBody.isComposite]

theorem isDeclared_of_scalar {name : String} (h : schema.body? name = some .scalar)
    (hname : name ∈ specifiedScalars) : schema.isDeclared name = false := by
  simp [isDeclared, isCustomScalar, typeIs, h, hname]

theorem exists_body_of_mem {name : String} (hname : name ∈ schema.types.map (·.name)) :
    ∃ body, schema.body? name = some body := by
  obtain ⟨type, hmem, rfl⟩ := List.mem_map.mp hname
  rw [← Option.isSome_iff_exists, body?, Option.isSome_map, type?, List.find?_isSome]
  exact ⟨type, hmem, beq_self_eq_true _⟩

theorem isOutput_of_mem {name : String} (hname : name ∈ schema.types.map (·.name))
    (hnot : schema.typeIs (· matches .inputObject _ _) name = false) :
    schema.isOutput name = true := by
  obtain ⟨body, hbody⟩ := exists_body_of_mem hname
  simp only [typeIs, hbody, Option.any_some] at hnot
  simp only [isOutput, typeIs, hbody, Option.any_some]
  cases body with
  | inputObject fields isOneOf => simp at hnot
  | scalar | object _ _ | interface _ _ | union _ | enum _ => rfl

end

section

open Source (Document)

theorem mem_fields_of_extended {body more : TypeBody} {field : Field}
    (h : field ∈ (body.extended more).fields) : field ∈ body.fields ∨ field ∈ more.fields := by
  cases body <;> cases more <;> simp_all [TypeBody.extended, TypeBody.fields]

theorem mem_fields_extended {type : NamedType} {extensions : List NamedType} {field : Field}
    (h : field ∈ (type.extended extensions).body.fields) :
    field ∈ type.body.fields ∨ ∃ extension ∈ extensions, field ∈ extension.body.fields := by
  rw [NamedType.extended] at h
  revert h
  refine List.foldlRecOn
    (motive := fun (body : TypeBody) => field ∈ body.fields →
      field ∈ type.body.fields ∨ ∃ extension ∈ extensions, field ∈ extension.body.fields)
    _ _ Or.inl ?_
  intro body hbody extension hextension h
  rcases mem_fields_of_extended h with h | h
  · exact hbody h
  · exact Or.inr ⟨extension, List.mem_of_mem_filter hextension, h⟩

theorem mem_typeReferences {definition : Source.TypeDefinition} {field : Field}
    (h : field ∈ (NamedType.ofDefinition definition).body.fields) :
    field.type.innermost ∈ Validity.typeReferences definition.body := by
  rw [NamedType.ofDefinition] at h
  cases hbody : definition.body with
  | object interfaces fields | interface interfaces fields =>
    simp only [hbody, TypeBody.ofDefinition, TypeBody.fields] at h
    obtain ⟨written, hmem, rfl⟩ := List.mem_map.mp h
    apply List.mem_append_right
    exact List.mem_flatMap.mpr ⟨written, hmem, List.mem_cons_self⟩
  | scalar | union _ | enum _ | inputObject _ =>
    simp [hbody, TypeBody.ofDefinition, TypeBody.fields] at h

/-- The types of a schema are those that are defined, scalars among those that every schema may use,
and those of introspection. -/
theorem types_ofDocument (document : Document) :
    ∃ own scalars, (ofDocument document).types = own ++ scalars ++ Introspection.types ∧
      (∀ type, type ∈ own ↔ type.name ∉ standardTypes ∧ ∃ definition ∈ document.types,
        (NamedType.ofDefinition definition).extended
          (document.typeExtensions.map NamedType.ofDefinition) = type) ∧
      (∀ type ∈ scalars, type.body = .scalar) ∧
      ∀ name ∈ specifiedScalars,
        name ∈ "String" :: "Boolean" :: own.flatMap (·.body.references) →
        name ∈ scalars.map (·.name) := by
  refine ⟨_, _, rfl, fun type => ?_, fun type htype => ?_, fun name hname hreferenced => ?_⟩
  · simp [and_comm]
  · obtain ⟨name, _, rfl⟩ := List.mem_map.mp htype
    rfl
  · apply List.mem_map.mpr
    refine ⟨⟨name, .scalar⟩, List.mem_map.mpr ⟨name, List.mem_filter.mpr ⟨hname, ?_⟩, rfl⟩, rfl⟩
    rw [List.contains_eq_mem, decide_eq_true_eq]
    apply List.mem_append_left
    rcases List.mem_cons.mp hreferenced with rfl | hreferenced
    · simp
    rcases List.mem_cons.mp hreferenced with rfl | hreferenced
    · simp
    · exact List.mem_append_right _ hreferenced

theorem standard_of_introspection {type : NamedType} (htype : type ∈ Introspection.types)
    {field : Field} (hfield : field ∈ type.body.fields) :
    field.type.innermost ∈ "String" :: "Boolean" :: Introspection.types.map (·.name) := by
  have hall : ∀ type ∈ Introspection.types, ∀ field ∈ type.body.fields,
      field.type.innermost ∈ "String" :: "Boolean" :: Introspection.types.map (·.name) := by decide
  exact hall type htype field hfield

variable {document : Document}

theorem eq_scalar_or_mem_introspection {name : String} (hname : name ∈ standardTypes)
    {body : TypeBody} (hbody : (ofDocument document).body? name = some body) :
    body = .scalar ∨ ⟨name, body⟩ ∈ Introspection.types := by
  obtain ⟨own, scalars, htypes, hown, hscalars, _⟩ := types_ofDocument document
  obtain ⟨type, htype, rfl⟩ := Option.map_eq_some_iff.mp hbody
  obtain ⟨hmem, rfl⟩ := mem_of_type? htype
  rw [htypes, List.mem_append, List.mem_append] at hmem
  rcases hmem with (hmem | hmem) | hmem
  · exact absurd hname ((hown type).mp hmem).1
  · exact Or.inl (hscalars type hmem)
  · exact Or.inr hmem

theorem not_inputObject_of_standard {name : String} (hname : name ∈ standardTypes) :
    (ofDocument document).typeIs (· matches .inputObject _ _) name = false := by
  rw [typeIs]
  cases hbody : (ofDocument document).body? name with
  | none => rfl
  | some body =>
    rcases eq_scalar_or_mem_introspection hname hbody with rfl | hmem
    · rfl
    · have hall : ∀ type ∈ Introspection.types,
          (type.body matches .inputObject _ _) = false := by decide
      simpa using hall _ hmem

theorem exists_of_standard {name : String}
    (hname : name ∈ "String" :: "Boolean" :: Introspection.types.map (·.name)) :
    name ∈ (ofDocument document).types.map (·.name) := by
  obtain ⟨own, scalars, htypes, _, _, hscalars⟩ := types_ofDocument document
  rw [htypes, List.map_append, List.map_append, List.mem_append, List.mem_append]
  rcases List.mem_cons.mp hname with rfl | hname
  · exact Or.inl (Or.inr (hscalars _ (by decide) (by simp)))
  rcases List.mem_cons.mp hname with rfl | hname
  · exact Or.inl (Or.inr (hscalars _ (by decide) (by simp)))
  · exact Or.inr hname

theorem body?_scalar_ofDocument {name : String} (hname : name ∈ ["String", "Boolean"]) :
    (ofDocument document).body? name = some .scalar := by
  have hstandard : ∀ name ∈ ["String", "Boolean"], name ∈ standardTypes := by decide
  obtain ⟨body, hbody⟩ := exists_body_of_mem (exists_of_standard (List.mem_append_left _ hname))
  rw [hbody]
  rcases eq_scalar_or_mem_introspection (hstandard name hname) hbody with rfl | hintrospection
  · rfl
  · have hall : ∀ type ∈ Introspection.types, type.name ∉ ["String", "Boolean"] := by decide
    exact absurd hname (hall _ hintrospection)

theorem exists_of_field
    (hknown : Validity.definitionsFollow (ofDocument document) document .knownReferences = true)
    {type : NamedType} (htype : type ∈ (ofDocument document).types) {field : Field}
    (hfield : field ∈ type.body.fields) :
    field.type.innermost ∈ (ofDocument document).types.map (·.name) := by
  obtain ⟨own, scalars, htypes, hown, hbodies, hscalars⟩ := types_ofDocument document
  rw [htypes, List.mem_append, List.mem_append] at htype
  rcases htype with (htype | htype) | htype
  · obtain ⟨_, definition, hdefinition, rfl⟩ := (hown type).mp htype
    have hreference : field.type.innermost ∈ Validity.references document := by
      apply List.mem_append_left
      apply List.mem_append_right
      rcases mem_fields_extended hfield with h | ⟨extension, hextension, h⟩
      · exact List.mem_flatMap.mpr ⟨definition, List.mem_append_left _ hdefinition,
          mem_typeReferences h⟩
      · obtain ⟨written, hwritten, rfl⟩ := List.mem_map.mp hextension
        exact List.mem_flatMap.mpr ⟨written, List.mem_append_right _ hwritten,
          mem_typeReferences h⟩
    have hdefined := List.all_eq_true.mp (Bool.and_eq_true_iff.mp hknown).1 _ hreference
    by_cases hstandard : field.type.innermost ∈ standardTypes
    · rcases List.mem_append.mp hstandard with hscalar | hintrospection
      · rw [htypes, List.map_append, List.map_append]
        apply List.mem_append_left
        apply List.mem_append_right
        apply hscalars _ hscalar
        apply List.mem_cons_of_mem
        apply List.mem_cons_of_mem
        refine List.mem_flatMap.mpr ⟨_, htype, List.mem_append_left _ ?_⟩
        exact List.mem_flatMap.mpr ⟨field, hfield, List.mem_cons_self⟩
      · exact exists_of_standard
          (List.mem_cons_of_mem _ (List.mem_cons_of_mem _ hintrospection))
    · simp only [List.contains_eq_mem, decide_eq_true_eq, List.mem_append, hstandard,
        or_false] at hdefined
      obtain ⟨other, hother, hname⟩ := List.mem_map.mp hdefined
      have hnot : other.name ∉ standardTypes := hname ▸ hstandard
      rw [htypes, List.map_append, List.map_append]
      apply List.mem_append_left
      apply List.mem_append_left
      exact List.mem_map.mpr ⟨_, (hown _).mpr ⟨hnot, other, hother, rfl⟩, hname⟩
  · rw [hbodies type htype] at hfield
    cases hfield
  · exact exists_of_standard (standard_of_introspection htype hfield)

theorem hasOutputTypes_ofDocument
    (h : Validity.definitionsValid (ofDocument document) document = true) :
    (ofDocument document).hasOutputTypes = true := by
  have hknown := List.all_eq_true.mp h .knownReferences (by decide)
  have hfitting := List.all_eq_true.mp h .fittingReferences (by decide)
  rw [hasOutputTypes, List.all_append, Bool.and_eq_true, List.all_eq_true, List.all_eq_true]
  constructor
  · intro field hfield
    obtain ⟨type, htype, hfield⟩ := List.mem_flatMap.mp hfield
    apply isOutput_of_mem (exists_of_field hknown htype hfield)
    have hfit := List.all_eq_true.mp (Bool.and_eq_true_iff.mp hfitting).1 type htype
    unfold Validity.referencesFit at hfit
    simp only [Bool.and_eq_true, List.all_eq_true, Bool.not_eq_true'] at hfit
    exact (hfit.1.1.1 field hfield).1
  · have hmeta : ∀ field ∈ [typenameField, schemaField, typeField],
        field.type.innermost ∈ "String" :: "Boolean" :: Introspection.types.map (·.name) := by
      decide
    have hstandard : ∀ name ∈ "String" :: "Boolean" :: Introspection.types.map (·.name),
        name ∈ standardTypes := by decide
    intro field hfield
    exact isOutput_of_mem (exists_of_standard (hmeta field hfield))
      (not_inputObject_of_standard (hstandard _ (hmeta field hfield)))

end

section

variable {schema : Schema} (f : InputValue → InputValue)

theorem body?_mapInputValues (name : String) :
    (schema.mapInputValues f).body? name = (schema.body? name).map (·.mapInputValues f) := by
  simp only [body?, type?, mapInputValues, List.find?_map, Function.comp_def, Option.map_map]

theorem isOutput_mapInputValues (name : String) :
    (schema.mapInputValues f).isOutput name = schema.isOutput name := by
  simp only [isOutput, typeIs, body?_mapInputValues, Option.any_map]
  congr 1
  funext body
  cases body <;> rfl

theorem hasOutputTypes_mapInputValues :
    (schema.mapInputValues f).hasOutputTypes = schema.hasOutputTypes := by
  have hfields : ∀ body : TypeBody,
      (body.mapInputValues f).fields = body.fields.map (·.mapArguments f) := by
    intro body
    cases body <;> rfl
  simp only [hasOutputTypes, isOutput_mapInputValues, List.all_append, List.all_flatMap]
  simp [mapInputValues, hfields, Function.comp_def, Field.mapArguments]

/-- The fields of a schema that is read have output types. -/
theorem hasOutputTypes_of_parse {text : String} (h : Schema.parse text = .ok schema) :
    schema.hasOutputTypes = true := by
  simp only [Schema.parse, Outcome.bind_eq_ok, Outcome.guard_eq_ok, Outcome.pure_eq_ok] at h
  obtain ⟨document, _, hvalid, _, rfl⟩ := h
  rw [settled, settledWithin, hasOutputTypes_mapInputValues]
  exact hasOutputTypes_ofDocument hvalid

theorem body?_scalar_of_parse {text : String} (h : Schema.parse text = .ok schema) {name : String}
    (hname : name ∈ ["String", "Boolean"]) : schema.body? name = some .scalar := by
  simp only [Schema.parse, Outcome.bind_eq_ok, Outcome.guard_eq_ok, Outcome.pure_eq_ok] at h
  obtain ⟨document, _, _, _, rfl⟩ := h
  rw [settled, settledWithin, body?_mapInputValues, body?_scalar_ofDocument hname]
  rfl

theorem body?_string_of_parse {text : String} (h : Schema.parse text = .ok schema) :
    schema.body? "String" = some .scalar :=
  body?_scalar_of_parse h (by decide)

end

end QueryShape.Schema
