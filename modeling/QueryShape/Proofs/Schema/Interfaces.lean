import Mathlib.Data.List.Nodup
import QueryShape.Proofs.Schema.OutputTypes
import QueryShape.Validity.Types

/-!
# Fields that interfaces promise

A field that can be selected on a type can be selected on every object type that the type may
resolve to: object types have the fields of their interfaces, and on unions only the name of the
type can be selected. Types are found by their names, which are distinct in schemas that are read.
-/

set_option autoImplicit false

namespace QueryShape.Schema

def hasDistinctNames (schema : Schema) : Bool :=
  decide (schema.types.map (·.name)).Nodup

section

variable {schema : Schema}

theorem type?_eq_of_mem (hdistinct : schema.hasDistinctNames = true) {type : NamedType}
    (hmem : type ∈ schema.types) : schema.type? type.name = some type := by
  obtain ⟨found, hfound⟩ : ∃ found, schema.type? type.name = some found := by
    rw [← Option.isSome_iff_exists, type?, List.find?_isSome]
    exact ⟨type, hmem, beq_self_eq_true _⟩
  obtain ⟨hin, hname⟩ := mem_of_type? hfound
  rw [hfound, List.inj_on_of_nodup_map (of_decide_eq_true hdistinct) hin hmem hname]

theorem body?_of_mem_implementers (hdistinct : schema.hasDistinctNames = true)
    {interface type : String} (h : type ∈ schema.implementers interface) :
    ∃ body, schema.body? type = some body ∧ interface ∈ body.interfaces ∧
      ⟨type, body⟩ ∈ schema.types := by
  obtain ⟨implementer, hmem, rfl⟩ := List.mem_map.mp h
  obtain ⟨hin, hlists⟩ := List.mem_filter.mp hmem
  obtain ⟨_, hinterface⟩ := Bool.and_eq_true_iff.mp hlists
  refine ⟨implementer.body, ?_, by simpa using hinterface, hin⟩
  rw [body?, type?_eq_of_mem hdistinct hin]
  rfl

theorem isSome_find?_of_keepsInterface {body : TypeBody} {interface name : String}
    {promised : TypeBody} (hpromised : schema.body? interface = some promised)
    (h : Validity.keepsInterface schema body interface = true)
    (hname : (promised.fields.find? (·.name == name)).isSome = true) :
    (body.fields.find? (·.name == name)).isSome = true := by
  obtain ⟨field, hfield⟩ := Option.isSome_iff_exists.mp hname
  rw [Validity.keepsInterface, hpromised, Option.all_some, Bool.and_eq_true, List.all_eq_true,
    List.all_eq_true] at h
  have hkept := h.2 field (List.mem_of_find?_eq_some hfield)
  obtain ⟨own, hown, hsame⟩ := List.any_eq_true.mp hkept
  have hownName : own.name = field.name := by simpa using (Bool.and_eq_true_iff.mp hsame).1
  have hfieldName : field.name = name := by simpa using List.find?_some hfield
  exact List.find?_isSome.mpr ⟨own, hown, by simp [hownName, hfieldName]⟩

variable (hvalid : Validity.typesValid schema = true)
include hvalid

theorem isObject_of_rootType? {kind : Source.OperationKind} {root : String}
    (hroot : schema.rootType? kind = some root) :
    schema.typeIs TypeBody.isObject root = true := by
  have hobjects : schema.hasObjectRoots = true :=
    List.all_eq_true.mp hvalid .objectRoots (by decide)
  have hmem : some root ∈ [schema.queryType, schema.mutationType, schema.subscriptionType] := by
    cases kind <;> simp [← hroot, rootType?]
  exact List.all_eq_true.mp (Bool.and_eq_true_iff.mp hobjects).2 _ hmem

theorem possibleTypes_of_rootType? {kind : Source.OperationKind} {root : String}
    (hroot : schema.rootType? kind = some root) : schema.possibleTypes root = [root] := by
  have hobject := isObject_of_rootType? hvalid hroot
  rw [typeIs] at hobject
  rw [possibleTypes]
  cases hbody : schema.body? root with
  | none => simp [hbody] at hobject
  | some body => cases body <;> simp [hbody, TypeBody.isObject] at hobject ⊢

theorem isSome_ownField?_of_possibleType (hdistinct : schema.hasDistinctNames = true)
    {parent type name : String} (htype : type ∈ schema.possibleTypes parent)
    (h : (schema.ownField? parent name).isSome = true) :
    (schema.ownField? type name).isSome = true := by
  cases hparent : schema.body? parent with
  | none => simp [ownField?, hparent] at h
  | some body =>
    rw [ownField?, hparent, Option.bind_some] at h
    rw [possibleTypes, hparent] at htype
    cases body with
    | object interfaces fields =>
      obtain rfl := List.mem_singleton.mp htype
      rw [ownField?, hparent]
      exact h
    | interface interfaces fields =>
      obtain ⟨body, hbody, hlists, hmem⟩ := body?_of_mem_implementers hdistinct htype
      have hkept := List.all_eq_true.mp
        (List.all_eq_true.mp hvalid .keptInterfaces (by decide)) _ hmem
      have hkeeps := List.all_eq_true.mp (Bool.and_eq_true_iff.mp hkept).2 parent hlists
      rw [ownField?, hbody, Option.bind_some]
      exact isSome_find?_of_keepsInterface hparent hkeeps h
    | union members => cases h
    | scalar | enum _ | inputObject _ _ => cases htype

theorem nodup_possibleTypes (hdistinct : schema.hasDistinctNames = true) (name : String) :
    (schema.possibleTypes name).Nodup := by
  rw [possibleTypes]
  cases hbody : schema.body? name with
  | none => exact List.nodup_nil
  | some body =>
    cases body with
    | object interfaces fields => exact List.nodup_singleton name
    | interface interfaces fields =>
      exact (List.filter_sublist.map NamedType.name).nodup (of_decide_eq_true hdistinct)
    | union members =>
      obtain ⟨type, htype, hunion⟩ := Option.map_eq_some_iff.mp hbody
      have hmembers := List.all_eq_true.mp
        (List.all_eq_true.mp hvalid .distinctUnionMembers (by decide)) type (mem_of_type? htype).1
      rw [hunion] at hmembers
      exact of_decide_eq_true hmembers
    | scalar | enum _ | inputObject _ _ => exact List.nodup_nil

/-- What can be selected on a type can be selected on all types that it may resolve to. -/
theorem isSome_field?_of_possibleType (hdistinct : schema.hasDistinctNames = true)
    {parent type name : String} (htype : type ∈ schema.possibleTypes parent)
    (h : (schema.field? parent name).isSome = true) :
    (schema.field? type name).isSome = true := by
  -- Introspection starts at the query type, which resolves to nothing but itself.
  have hroot : schema.queryType = some parent → type = parent := by
    intro hquery
    have hroot : schema.rootType? .query = some parent := hquery
    rw [possibleTypes_of_rootType? hvalid hroot] at htype
    exact List.mem_singleton.mp htype
  rw [field?] at h
  split at h
  · rename_i hname
    simp [field?, hname]
  split at h
  · rename_i _ hquery
    rw [hroot hquery.2]
    simp [field?, hquery]
  split at h
  · rename_i _ _ hquery
    rw [hroot hquery.2]
    simp [field?, hquery]
  · have hown := isSome_ownField?_of_possibleType hvalid hdistinct htype h
    rw [field?]
    split
    · rfl
    split
    · rfl
    split
    · rfl
    · exact hown

end

section

open Source (Document)

theorem hasDistinctNames_ofDocument {document : Document}
    (h : Validity.definitionsValid (ofDocument document) document = true) :
    (ofDocument document).hasDistinctNames = true := by
  have hunique : (document.types.map (·.name)).Nodup :=
    of_decide_eq_true (List.all_eq_true.mp h .uniqueTypeNames (by decide))
  have hstandard : standardTypes.Nodup := by decide
  obtain ⟨hspecified, hintrospection, hapart⟩ := List.nodup_append.mp hstandard
  have hwritten : (document.types.map fun definition =>
      (NamedType.ofDefinition definition).extended
        (document.typeExtensions.map NamedType.ofDefinition)).map NamedType.name =
      document.types.map (·.name) := by
    simp [NamedType.extended, NamedType.ofDefinition, Function.comp_def]
  have hscalars : ∀ p : String → Bool,
      ((specifiedScalars.filter p).map (NamedType.mk · .scalar)).map NamedType.name =
        specifiedScalars.filter p := by
    simp [Function.comp_def]
  rw [hasDistinctNames, decide_eq_true_iff]
  simp only [ofDocument, List.map_append, List.append_assoc, hscalars]
  apply List.nodup_append.mpr
  refine ⟨?_, List.nodup_append.mpr ⟨?_, hintrospection, ?_⟩, ?_⟩
  · exact (List.filter_sublist.map NamedType.name).nodup (hwritten ▸ hunique)
  · exact List.filter_sublist.nodup hspecified
  · exact fun name hname => hapart name (List.mem_of_mem_filter hname)
  · rintro name hname other hother rfl
    obtain ⟨type, htype, rfl⟩ := List.mem_map.mp hname
    have hnot : type.name ∉ standardTypes := by simpa using (List.mem_filter.mp htype).2
    rcases List.mem_append.mp hother with hother | hother
    · exact hnot (List.mem_append_left _ (List.mem_of_mem_filter hother))
    · exact hnot (List.mem_append_right _ hother)

theorem hasDistinctNames_of_parse {schema : Schema} {text : String}
    (h : Schema.parse text = .ok schema) : schema.hasDistinctNames = true := by
  simp only [Schema.parse, Outcome.bind_eq_ok, Outcome.guard_eq_ok, Outcome.pure_eq_ok] at h
  obtain ⟨document, _, hvalid, _, rfl⟩ := h
  have hnames := hasDistinctNames_ofDocument hvalid
  simpa [hasDistinctNames, settled, settledWithin, mapInputValues, Function.comp_def] using hnames

end

end QueryShape.Schema
