import QueryShape.Proofs.Typed.Lookups
import QueryShape.Proofs.Typed.WellFormed

/-!
# Refused operations

Of the operations of a valid document the first one that is anonymous or lacks a root type decides
the error. If there is none, the document is compiled, with its fragments and operations under their
names.
-/

set_option autoImplicit false

namespace QueryShape.Typed

variable {schema : Schema} {filePath : Option String}

theorem Operation.ofSource_eq_error_iff (filePath : Option String) {document : Source.Document}
    (hresolves : document.Resolves schema) {operation : Source.Operation}
    (hmem : operation ∈ document.operations) (error : TypingError) :
    Operation.ofSource schema document.fragmentType? filePath operation = .error error ↔
      refusal? schema operation = some error := by
  refine ⟨fun herror => ?_, Operation.ofSource_of_refused⟩
  cases hrefusal : refusal? schema operation with
  | none =>
    obtain ⟨typed, htyped⟩ := Document.exists_operation hresolves filePath hmem hrefusal
    rw [htyped] at herror
    cases herror
  | some other =>
    rw [Operation.ofSource_of_refused hrefusal] at herror
    rw [Except.error.inj herror]

theorem Document.ofSource_eq (schema : Schema) (filePath : Option String)
    (document : Source.Document) :
    Document.ofSource schema filePath document = do
      let fragments ← document.fragments.mapM
        (Fragment.ofSource schema document.fragmentType? filePath)
      let operations ← document.operations.mapM
        (Operation.ofSource schema document.fragmentType? filePath)
      return { operations, fragments, typesUsed := usedTypes schema document } :=
  rfl

/-- The first operation that is refused decides whether a document that resolves is typed. -/
theorem Document.ofSource_eq_error_iff (filePath : Option String) {document : Source.Document}
    (hresolves : document.Resolves schema) {error : TypingError} :
    Document.ofSource schema filePath document = .error error ↔
      document.operations.findSome? (refusal? schema) = some error := by
  obtain ⟨fragments, hfragments⟩ :=
    Outcome.exists_mapM_eq_ok fun _ hmem => exists_fragment hresolves filePath hmem
  rw [← Outcome.mapM_eq_error_iff fun operation hmem =>
    Operation.ofSource_eq_error_iff filePath hresolves hmem, Document.ofSource_eq, hfragments]
  cases document.operations.mapM (Operation.ofSource schema document.fragmentType? filePath) with
  | error other => simp [bind, Except.bind]
  | ok operations => exact iff_of_false nofun nofun

namespace Document

variable {source : Source.Document} {options : Options} {document : Document}

theorem compile_eq_of_valid (htypes : Validity.typesValid schema = true)
    (hdecided : Validity.subscriptionsDecided schema source = true)
    (hvalid : Validity.isValid schema source = true) :
    compile schema options filePath source =
      (ofSource schema filePath (source.prepared options)).mapError .typing := by
  rw [compile, if_pos htypes, if_pos hdecided, if_pos hvalid]
  rfl

theorem compile_eq_error_iff (hresolves : (source.prepared options).Resolves schema)
    (htypes : Validity.typesValid schema = true)
    (hdecided : Validity.subscriptionsDecided schema source = true)
    (hvalid : Validity.isValid schema source = true) {error : CompileError} :
    compile schema options filePath source = .error error ↔
      ∃ refusal, error = .typing refusal ∧
        (source.prepared options).operations.findSome? (refusal? schema) = some refusal := by
  simp only [← ofSource_eq_error_iff filePath hresolves]
  rw [compile_eq_of_valid htypes hdecided hvalid]
  cases ofSource schema filePath (source.prepared options) with
  | error refusal => simp [Except.mapError, eq_comm]
  | ok document => simp [Except.mapError]

theorem exists_refused_iff (options : Options) :
    (∃ refusal, (source.prepared options).operations.findSome? (refusal? schema) = some refusal) ↔
      ∃ operation ∈ source.operations,
        operation.name = none ∨ schema.rootType? operation.kind = none := by
  have hsame : ∀ operation : Source.Operation,
      (refusal? schema operation.addTypename).isSome = (refusal? schema operation).isSome := by
    intro operation
    rw [Bool.eq_iff_iff, isSome_refusal?, isSome_refusal?]
    rfl
  rw [← Option.isSome_iff_exists, List.findSome?_isSome_iff, ← List.mem_map,
    Source.Document.map_operations_prepared hsame, List.mem_map]
  simp only [isSome_refusal?]

theorem names_of_compile (h : compile schema options filePath source = .ok document) :
    document.fragments.map (·.name) = source.fragments.map (·.name) ∧
      document.operations.map (fun operation => some operation.name) =
        source.operations.map (·.name) := by
  obtain ⟨-, -, htyped⟩ := isTyped_of_compile h
  rw [← Source.Document.map_fragments_prepared (fun _ => rfl) options,
    ← Source.Document.map_operations_prepared (fun _ => rfl) options]
  refine ⟨map_eq_of_forall₂ (Outcome.mapM_eq_ok.mp htyped.fragments) ?_,
    map_eq_of_forall₂ (Outcome.mapM_eq_ok.mp htyped.operations) ?_⟩
  · intro written fragment hfragment
    obtain ⟨_, _, rfl⟩ := Fragment.ofSource_eq_ok.mp hfragment
    rfl
  · intro written operation hoperation
    obtain ⟨name, hname, _, _, _, _, rfl⟩ := Operation.ofSource_eq_ok.mp hoperation
    exact hname.symm

theorem nodup_names_of_compile (h : compile schema options filePath source = .ok document) :
    (document.fragments.map (·.name)).Nodup ∧ (document.operations.map (·.name)).Nodup := by
  obtain ⟨hfragments, hoperations⟩ := names_of_compile h
  obtain ⟨-, hvalid, -⟩ := isTyped_of_compile h
  have hnames : source.operations.filterMap (·.name) = document.operations.map (·.name) :=
    calc
      source.operations.filterMap (·.name) = (source.operations.map (·.name)).filterMap id := by
        rw [List.filterMap_map, Function.id_comp]
      _ = (document.operations.map fun operation => some operation.name).filterMap id := by
        rw [hoperations]
      _ = document.operations.map (·.name) := by
        rw [List.filterMap_map]
        exact List.filterMap_eq_map_iff_forall_eq_some.mpr fun _ _ => rfl
  rw [hfragments, ← hnames]
  exact ⟨of_decide_eq_true (Validity.follows_of_isValid hvalid .uniqueFragmentNames (by decide)),
    of_decide_eq_true (Validity.follows_of_isValid hvalid .uniqueOperationNames (by decide))⟩

/-- Compiling ends in an error exactly if some operation is anonymous or lacks a root type, and the
first such operation decides the error. Else it gives the fragments and the operations under their
names, which are distinct, in their order. Nothing else goes wrong: whatever the prepared document
refers to is there. -/
structure CompilesUnlessRefused (schema : Schema) (options : Options) (filePath : Option String)
    (source : Source.Document) : Prop where
  refused : (∃ error, compile schema options filePath source = .error error) ↔
    ∃ operation ∈ source.operations,
      operation.name = none ∨ schema.rootType? operation.kind = none
  first : ∀ error, compile schema options filePath source = .error error ↔
    ∃ refusal, error = .typing refusal ∧
      (source.prepared options).operations.findSome? (refusal? schema) = some refusal
  accepted : (∀ operation ∈ source.operations,
      operation.name ≠ none ∧ schema.rootType? operation.kind ≠ none) →
    ∃ document, compile schema options filePath source = .ok document ∧
      document.fragments.map (·.name) = source.fragments.map (·.name) ∧
      document.operations.map (fun operation => some operation.name) =
        source.operations.map (·.name) ∧
      (document.fragments.map (·.name)).Nodup ∧ (document.operations.map (·.name)).Nodup
  resolves : (source.prepared options).Resolves schema

theorem compilesUnlessRefused (hresolves : (source.prepared options).Resolves schema)
    (htypes : Validity.typesValid schema = true)
    (hdecided : Validity.subscriptionsDecided schema source = true)
    (hvalid : Validity.isValid schema source = true) :
    CompilesUnlessRefused schema options filePath source := by
  have herror : ∀ error, compile schema options filePath source = .error error ↔
      ∃ refusal, error = .typing refusal ∧
        (source.prepared options).operations.findSome? (refusal? schema) = some refusal :=
    fun error => compile_eq_error_iff hresolves htypes hdecided hvalid
  have hexists : (∃ error, compile schema options filePath source = .error error) ↔
      ∃ operation ∈ source.operations,
        operation.name = none ∨ schema.rootType? operation.kind = none := by
    rw [← exists_refused_iff options]
    simp only [herror]
    constructor
    · rintro ⟨_, refusal, rfl, hrefusal⟩
      exact ⟨refusal, hrefusal⟩
    · rintro ⟨refusal, hrefusal⟩
      exact ⟨_, refusal, rfl, hrefusal⟩
  refine ⟨hexists, herror, fun haccepted => ?_, hresolves⟩
  cases hcompile : compile schema options filePath source with
  | error error =>
    obtain ⟨operation, hmem, hrefused⟩ := hexists.mp ⟨error, hcompile⟩
    obtain ⟨hname, hroot⟩ := haccepted operation hmem
    exact absurd hrefused (not_or.mpr ⟨hname, hroot⟩)
  | ok document =>
    obtain ⟨hfragments, hoperations⟩ := names_of_compile hcompile
    exact ⟨document, rfl, hfragments, hoperations, nodup_names_of_compile hcompile⟩

/-- A valid document is compiled unless one of its operations is refused. -/
theorem compile_eq_error_iff_refused (hstandard : schema.HasStandardConditions)
    (htypes : Validity.typesValid schema = true)
    (hdecided : Validity.subscriptionsDecided schema source = true)
    (hvalid : Validity.isValid schema source = true) (options : Options)
    (filePath : Option String) : CompilesUnlessRefused schema options filePath source :=
  compilesUnlessRefused ((Validity.resolves_of_isValid hstandard htypes hvalid).prepared
    hstandard.isComposite_string options) htypes hdecided hvalid

end Document

theorem hasStandardConditions_animals : Schema.animals.HasStandardConditions where
  directive := List.forall_mem_cons.mpr ⟨rfl, List.forall_mem_singleton.mpr rfl⟩
  scalar := List.forall_mem_cons.mpr ⟨rfl, List.forall_mem_singleton.mpr rfl⟩

def animalsChanged : Source.Document where
  definitions :=
    [(.query, "Q"), (.subscription, "S"), (.mutation, "M")].map fun (kind, name) =>
      .operation
        { description := none
          kind
          name := some name
          variableDefinitions := []
          directives := []
          selections := [.field none "animal" [] [] [.field none "name" [] [] []]] }

theorem Document.compile_eq_error_iff_refused_animals :
    Schema.animals.HasStandardConditions ∧ Validity.typesValid Schema.animals = true ∧
      (∀ source ∈ [animalsWhen, animalsChanged],
        Validity.subscriptionsDecided Schema.animals source = true ∧
          Validity.isValid Schema.animals source = true) ∧
      compile Schema.animals {} none animalsChanged =
        .error (.typing (.missingRootType .subscription)) ∧
      ∃ document, compile Schema.animals {} none animalsWhen = .ok document ∧
        document.fragments.map (·.name) = ["OfAnimals", "OfCats"] ∧
        document.operations.map (fun operation => some operation.name) = [some "Q"] := by
  have htypes : Validity.typesValid Schema.animals = true := by decide +kernel
  have hvalid : ∀ source ∈ [animalsWhen, animalsChanged],
      Validity.subscriptionsDecided Schema.animals source = true ∧
        Validity.isValid Schema.animals source = true := by decide +kernel
  obtain ⟨hdecidedWhen, hvalidWhen⟩ := hvalid animalsWhen (by simp)
  obtain ⟨hdecidedChanged, hvalidChanged⟩ := hvalid animalsChanged (by simp)
  obtain ⟨-, -, hnames, -⟩ := compile_eq_error_iff_refused hasStandardConditions_animals htypes
    hdecidedWhen hvalidWhen {} none
  obtain ⟨-, herror, -⟩ := compile_eq_error_iff_refused hasStandardConditions_animals htypes
    hdecidedChanged hvalidChanged {} none
  obtain ⟨document, hdocument, hfragments, hoperations, -⟩ := hnames (by decide)
  exact ⟨hasStandardConditions_animals, htypes, hvalid, (herror _).mpr ⟨_, rfl, rfl⟩, document,
    hdocument, hfragments, hoperations⟩

end QueryShape.Typed
