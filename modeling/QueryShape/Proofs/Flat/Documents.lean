import QueryShape.Proofs.Flat.Flattening
import QueryShape.Proofs.Typed.Checked
import QueryShape.Proofs.Typed.Compiled
import QueryShape.Proofs.Typed.References

/-!
# Whole documents can be flattened

A closed document has a flat form if fragments are kept apart, whether or not they spread each other
in a cycle, and also with fragments merged if they do not. It has the operations and fragments of
the document in their order, and the fragments of an operation are the flat forms of what the
operation reaches through spreads.
-/

set_option autoImplicit false

namespace QueryShape.Flat

section

variable {options : Options} {document : Typed.Document}

theorem operation_ofTyped_eq_ok {operation : Typed.Operation} {flat : Operation} :
    Operation.ofTyped options document operation = .ok flat ↔
      ∃ names, document.references operation.selectionSet = .ok names ∧
        ∃ identity, document.identityWith operation names = .ok identity ∧
        ∃ selection, flatten options document operation.selectionSet = .ok selection ∧
          { filePath := operation.filePath
            name := operation.name
            kind := operation.kind
            rootType := operation.rootType
            variableTypes := operation.variableTypes
            source := operation.source
            selection
            fragmentsReferenced := names
            sourceWithFragments := identity.sourceWithFragments
            operationId := identity.operationId } = flat := by
  simp only [Operation.ofTyped, Outcome.bind_eq_ok, Outcome.pure_eq_ok]

theorem fragment_ofTyped_eq_ok {fragment : Typed.Fragment} {flat : Fragment} :
    Fragment.ofTyped options document fragment = .ok flat ↔
      ∃ selection, flatten options document fragment.selectionSet = .ok selection ∧
        { filePath := fragment.filePath
          name := fragment.name
          source := fragment.source
          type := fragment.type
          possibleTypes := fragment.selectionSet.possibleTypes
          selection } = flat := by
  simp only [Fragment.ofTyped, Outcome.bind_eq_ok, Outcome.pure_eq_ok]

theorem name_of_ofTyped_operation {operation : Typed.Operation} {flat : Operation}
    (h : Operation.ofTyped options document operation = .ok flat) : flat.name = operation.name := by
  obtain ⟨_, _, _, _, _, _, rfl⟩ := operation_ofTyped_eq_ok.mp h
  rfl

theorem name_of_ofTyped_fragment {fragment : Typed.Fragment} {flat : Fragment}
    (h : Fragment.ofTyped options document fragment = .ok flat) : flat.name = fragment.name := by
  obtain ⟨_, _, rfl⟩ := fragment_ofTyped_eq_ok.mp h
  rfl

theorem document_ofTyped_eq_ok {flat : Document} :
    Document.ofTyped options document = .ok flat ↔
      List.Forall₂ (fun operation other => Operation.ofTyped options document operation = .ok other)
        document.operations flat.operations ∧
      List.Forall₂ (fun fragment other => Fragment.ofTyped options document fragment = .ok other)
        document.fragments flat.fragments ∧
      document.typesUsed = flat.typesUsed := by
  simp only [Document.ofTyped, Outcome.bind_eq_ok, Outcome.pure_eq_ok, Outcome.mapM_eq_ok]
  constructor
  · rintro ⟨operations, hoperations, fragments, hfragments, rfl⟩
    exact ⟨hoperations, hfragments, rfl⟩
  · rintro ⟨hoperations, hfragments, htypes⟩
    exact ⟨_, hoperations, _, hfragments, by rw [htypes]⟩

section

variable {flat : Document} (h : Document.ofTyped options document = .ok flat)
include h

theorem exists_operation? {name : String} {operation : Typed.Operation}
    (hoperation : document.operation? name = some operation) :
    ∃ other, flat.operation? name = some other ∧
      Operation.ofTyped options document operation = .ok other := by
  have hrel : Option.Rel _ (document.operation? name) (flat.operation? name) :=
    rel_find?_of_forall₂ (document_ofTyped_eq_ok.mp h).1 fun original other hother => by
      rw [name_of_ofTyped_operation hother]
  exact exists_eq_some_of_rel hrel hoperation

theorem exists_fragment? {name : String} {fragment : Typed.Fragment}
    (hfragment : document.fragment? name = some fragment) :
    ∃ other, flat.fragment? name = some other ∧
      Fragment.ofTyped options document fragment = .ok other := by
  have hrel : Option.Rel _ (document.fragment? name) (flat.fragment? name) :=
    rel_find?_of_forall₂ (document_ofTyped_eq_ok.mp h).2.1 fun original other hother => by
      rw [name_of_ofTyped_fragment hother]
  exact exists_eq_some_of_rel hrel hfragment

theorem exists_mapM_fragment? {names : List String}
    (hnames : ∀ name ∈ names, (document.fragment? name).isSome) :
    ∃ fragments, names.mapM flat.fragment? = some fragments ∧
      fragments.map (·.name) = names ∧
      ∀ fragment ∈ fragments, ∃ original, document.fragment? fragment.name = some original ∧
        Fragment.ofTyped options document original = .ok fragment := by
  induction names with
  | nil => exact ⟨[], rfl, rfl, by simp⟩
  | cons name rest ih =>
    obtain ⟨hname, hrest⟩ := List.forall_mem_cons.mp hnames
    obtain ⟨original, horiginal⟩ := Option.isSome_iff_exists.mp hname
    obtain ⟨fragment, hfragment, hflat⟩ := exists_fragment? h horiginal
    obtain ⟨fragments, hfragments, hsame, hall⟩ := ih hrest
    have hfragmentName : fragment.name = name := by
      rw [name_of_ofTyped_fragment hflat, (Typed.Document.mem_of_fragment? horiginal).2]
    refine ⟨fragment :: fragments, ?_, ?_, ?_⟩
    · rw [List.mapM_cons, hfragment, hfragments]
      rfl
    · rw [List.map_cons, hfragmentName, hsame]
    · rw [List.forall_mem_cons, hfragmentName]
      exact ⟨⟨original, horiginal, hflat⟩, hall⟩

theorem names_of_ofTyped_document :
    flat.operations.map (·.name) = document.operations.map (·.name) ∧
      flat.fragments.map (·.name) = document.fragments.map (·.name) := by
  obtain ⟨hoperations, hfragments, _⟩ := document_ofTyped_eq_ok.mp h
  exact ⟨map_eq_of_forall₂ hoperations fun _ _ => name_of_ofTyped_operation,
    map_eq_of_forall₂ hfragments fun _ _ => name_of_ofTyped_fragment⟩

end

section

variable (hclosed : document.IsClosed)
  (hacyclic : options.mergeSpreadFields = true → document.IsAcyclic)
include hclosed hacyclic

theorem exists_operation_ofTyped {operation : Typed.Operation}
    (hset : document.Defines operation.selectionSet.selections) :
    ∃ flat fragments, Operation.ofTyped options document operation = .ok flat ∧
      (document.reachableNames operation.selectionSet).mapM document.requireFragment =
        .ok fragments ∧
      flat.sourceWithFragments =
        "\n".intercalate (operation.source :: fragments.map (·.source)) := by
  have hreferences := Typed.Document.references_eq hclosed hset
  obtain ⟨fragments, hfragments, hidentity⟩ :=
    Typed.Document.exists_identityWith hclosed hset operation
  obtain ⟨selection, hselection⟩ := exists_flatten hclosed hacyclic hset
  exact ⟨_, fragments, operation_ofTyped_eq_ok.mpr
    ⟨_, hreferences, _, hidentity, selection, hselection, rfl⟩, hfragments, rfl⟩

theorem exists_document_ofTyped : ∃ flat, Document.ofTyped options document = .ok flat := by
  have hoperation : ∀ operation ∈ document.operations, ∃ flat,
      Operation.ofTyped options document operation = .ok flat := by
    intro operation hmem
    obtain ⟨flat, _, hflat, _⟩ :=
      exists_operation_ofTyped hclosed hacyclic (hclosed.operation operation hmem)
    exact ⟨flat, hflat⟩
  have hfragment : ∀ fragment ∈ document.fragments, ∃ flat,
      Fragment.ofTyped options document fragment = .ok flat := by
    intro fragment hmem
    obtain ⟨selection, hselection⟩ :=
      exists_flatten hclosed hacyclic (hclosed.fragment fragment hmem)
    exact ⟨_, fragment_ofTyped_eq_ok.mpr ⟨selection, hselection, rfl⟩⟩
  obtain ⟨operations, hoperations⟩ := Outcome.exists_mapM_eq_ok hoperation
  obtain ⟨fragments, hfragments⟩ := Outcome.exists_mapM_eq_ok hfragment
  exact ⟨⟨operations, fragments, document.typesUsed⟩, document_ofTyped_eq_ok.mpr
    ⟨Outcome.mapM_eq_ok.mp hoperations, Outcome.mapM_eq_ok.mp hfragments, rfl⟩⟩

/-- A closed document has a flat form, even with fragments that spread each other in a cycle unless
they are merged. Its operations and fragments are those of the document in their order, and the
fragments found for an operation are the flat forms of exactly those that spreads lead to from it.
No two fields under different keys are merged on the way. -/
theorem flattens_of_isClosed :
    ∃ flat, Document.ofTyped options document = .ok flat ∧
      flat.operations.map (·.name) = document.operations.map (·.name) ∧
      flat.fragments.map (·.name) = document.fragments.map (·.name) ∧
      (∀ name operation, document.operation? name = some operation →
        ∃ fragments, flat.fragmentsOf? name = some fragments ∧ (fragments.map (·.name)).Nodup ∧
          (∀ reached, reached ∈ fragments.map (·.name) ↔
            document.Reaches operation.selectionSet reached) ∧
          ∀ fragment ∈ fragments, ∃ original, document.fragment? fragment.name = some original ∧
            Fragment.ofTyped options document original = .ok fragment) ∧
      ∀ set : Typed.SelectionSet, set.typeCase? = some set.typeCase := by
  obtain ⟨flat, hflat⟩ := exists_document_ofTyped hclosed hacyclic
  obtain ⟨hoperations, hfragments⟩ := names_of_ofTyped_document hflat
  refine ⟨flat, hflat, hoperations, hfragments, ?_, Typed.SelectionSet.typeCase?_eq⟩
  intro name operation hoperation
  obtain ⟨other, hother, hlowered⟩ := exists_operation? hflat hoperation
  obtain ⟨names, hnames, _, _, _, _, rfl⟩ := operation_ofTyped_eq_ok.mp hlowered
  obtain ⟨rfl, hdefined⟩ := Typed.Document.references_eq_ok.mp hnames
  obtain ⟨fragments, hmapM, hsame, hall⟩ := exists_mapM_fragment? hflat hdefined
  refine ⟨fragments, ?_, ?_, ?_, hall⟩
  · rw [Document.fragmentsOf?, hother]
    exact hmapM
  · rw [hsame]
    exact Typed.Document.nodup_reachableNames operation.selectionSet
  · intro reached
    rw [hsame]
    exact Typed.Document.mem_reachableNames

end

end

/-- An operation that spreads `F` below a field. `F` spreads `G` below a field, and the selections
of `G` are given. -/
def spreadingBelow (last : List Typed.Selection) : Typed.Document where
  operations := [operation]
  fragments :=
    [⟨none, "F", "", "Dog", ⟨["Dog"], [field "friend" [.fragmentSpread "G"]]⟩⟩,
     ⟨none, "G", "", "Dog", ⟨["Dog"], last⟩⟩]
  typesUsed := []
where
  field (name : String) (selections : List Typed.Selection) : Typed.Selection :=
    .composite ⟨name, name, none, .named "Dog", [], none, false, none, false, []⟩ ["Dog"] selections
  operation : Typed.Operation :=
    ⟨none, "Q", .query, "Query", [], "", ⟨["Query"], [field "animal" [.fragmentSpread "F"]]⟩⟩

theorem isClosed_spreadingBelow {last : List Typed.Selection}
    (hlast : ∀ name ∈ Typed.Selection.allSpreads last, name = "F") :
    (spreadingBelow last).IsClosed where
  operation operation hoperation name hname := by
    rw [List.mem_singleton.mp hoperation] at hname
    rw [List.mem_singleton.mp hname]
    rfl
  fragment fragment hfragment name hname := by
    rcases List.mem_pair.mp hfragment with rfl | rfl
    · rw [List.mem_singleton.mp hname]
      rfl
    · rw [hlast name hname]
      rfl

theorem reaches_spreadingBelow (last : List Typed.Selection) :
    ∀ name ∈ ["F", "G"],
      (spreadingBelow last).Reaches spreadingBelow.operation.selectionSet name := by
  have hstep : "G" ∈ (spreadingBelow last).spreadsOf "F" := List.mem_singleton.mpr rfl
  intro name hname
  refine ⟨"F", List.mem_singleton.mpr rfl, ?_⟩
  rcases List.mem_pair.mp hname with rfl | rfl
  · exact .refl
  · exact .single hstep

theorem isAcyclic_spreadingBelow : (spreadingBelow []).IsAcyclic := by
  have hstep : ∀ name next, next ∈ (spreadingBelow []).spreadsOf name →
      name = "F" ∧ next = "G" := by
    intro name next hnext
    cases hfragment : (spreadingBelow []).fragment? name with
    | none =>
      rw [Typed.Document.spreadsOf, hfragment] at hnext
      cases hnext
    | some fragment =>
      obtain ⟨hmem, rfl⟩ := Typed.Document.mem_of_fragment? hfragment
      rw [Typed.Document.spreadsOf_eq hfragment] at hnext
      rcases List.mem_pair.mp hmem with rfl | rfl
      · exact ⟨rfl, List.mem_singleton.mp hnext⟩
      · cases hnext
  intro name hcycle
  obtain ⟨next, hnext, _⟩ := Relation.TransGen.head'_iff.mp hcycle
  obtain ⟨previous, _, hprevious⟩ := Relation.TransGen.tail'_iff.mp hcycle
  have hname := (hstep name next hnext).1
  rw [(hstep previous name hprevious).2] at hname
  exact absurd hname (by decide)

theorem flattens_of_isClosed_spreadingBelow :
    (∃ flat fragments, (spreadingBelow [.fragmentSpread "F"]).IsClosed ∧
      Document.ofTyped { mergeSpreadFields := false } (spreadingBelow [.fragmentSpread "F"]) =
        .ok flat ∧
      flat.fragmentsOf? "Q" = some fragments ∧
      ∀ name ∈ ["F", "G"], name ∈ fragments.map (·.name)) ∧
    ∃ flat fragments, (spreadingBelow []).IsClosed ∧ (spreadingBelow []).IsAcyclic ∧
      Document.ofTyped {} (spreadingBelow []) = .ok flat ∧ flat.fragmentsOf? "Q" = some fragments ∧
      ∀ name ∈ ["F", "G"], name ∈ fragments.map (·.name) := by
  constructor
  · have hclosed : (spreadingBelow [.fragmentSpread "F"]).IsClosed :=
      isClosed_spreadingBelow fun name hname => List.mem_singleton.mp hname
    obtain ⟨flat, hflat, _, _, hoperations, _⟩ :=
      @flattens_of_isClosed { mergeSpreadFields := false } _ hclosed (by simp)
    obtain ⟨fragments, hfragments, _, hnames, _⟩ := hoperations "Q" _ rfl
    exact ⟨flat, fragments, hclosed, hflat, hfragments, fun name hname =>
      (hnames name).mpr (reaches_spreadingBelow _ name hname)⟩
  · have hclosed : (spreadingBelow []).IsClosed :=
      isClosed_spreadingBelow fun _ hname => absurd hname List.not_mem_nil
    obtain ⟨flat, hflat, _, _, hoperations, _⟩ :=
      @flattens_of_isClosed {} _ hclosed fun _ => isAcyclic_spreadingBelow
    obtain ⟨fragments, hfragments, _, hnames, _⟩ := hoperations "Q" _ rfl
    exact ⟨flat, fragments, hclosed, isAcyclic_spreadingBelow, hflat, hfragments, fun name hname =>
      (hnames name).mpr (reaches_spreadingBelow _ name hname)⟩

end QueryShape.Flat
