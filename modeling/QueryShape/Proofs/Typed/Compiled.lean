import QueryShape.Compilation
import QueryShape.Proofs.Related
import QueryShape.Proofs.Source.Fragments
import QueryShape.Proofs.Typed.Fragments
import QueryShape.Proofs.Typed.Typing
import QueryShape.Schema.OfDefinitions

/-!
# Compiled documents

What typing makes of a valid document is closed and acyclic, since it spreads no other fragments
than the document as it is written, and its fields have the names under which they are selected.
-/

set_option autoImplicit false

namespace QueryShape.Schema

def ofTypes (types : List NamedType) : Schema where
  types := types ++ ["Int", "String", "Boolean"].map (⟨·, .scalar⟩) ++ Introspection.types
  directives := specifiedDirectives
  queryType := some "Query"
  mutationType := none
  subscriptionType := none

def twoFields : Schema :=
  .ofTypes [⟨"Query", .object []
    [Introspection.plain "a" (.named "Int"),
     Introspection.plain "b" (.named "Int")]⟩]

def animals : Schema :=
  .ofTypes
    [⟨"Query", .object [] [Introspection.plain "animal" (.named "Animal")]⟩,
     ⟨"Animal", .interface [] [Introspection.plain "name" (.named "String")]⟩,
     ⟨"Dog", .object ["Animal"]
       [Introspection.plain "name" (.named "String"),
        Introspection.plain "friend" (.named "Animal")]⟩,
     ⟨"Cat", .object ["Animal"]
       [Introspection.plain "name" (.named "String"),
        Introspection.plain "prey" (.named "Animal")]⟩]

end QueryShape.Schema

namespace QueryShape.Typed

namespace Selection

variable (types : List String) (checks : List Check) (selection : Selection)

@[simp] theorem spreads_under : (selection.under types checks).spreads = selection.spreads := by
  induction checks generalizing selection with
  | nil => rfl
  | cons check rest ih =>
    refine (ih _).trans ?_
    simp [spreads, allSpreads]

@[simp] theorem heads_under : (selection.under types checks).heads = selection.heads := by
  induction checks generalizing selection with
  | nil => rfl
  | cons check rest ih =>
    refine (ih _).trans ?_
    simp [heads, allHeads]

end Selection

@[simp] theorem spreads_spreadWithin (schema : Schema) (types : List String)
    (name fragmentType : String) :
    (spreadWithin schema types name fragmentType).spreads = [name] := by
  rw [spreadWithin]
  split <;> rfl

@[simp] theorem heads_spreadWithin (schema : Schema) (types : List String)
    (name fragmentType : String) : (spreadWithin schema types name fragmentType).heads = [] := by
  rw [spreadWithin]
  split <;> rfl

def FieldHead.IsNamed (head : FieldHead) : Prop :=
  head.responseKey = head.aliasName.getD head.name ∧ head.aliasName ≠ some ""

/-- The field is selected under its alias, one of the given ones, or else under its name. -/
structure FieldHead.IsNamedIn (aliases : List String) (head : FieldHead) : Prop where
  responseKey : head.responseKey = head.aliasName.getD head.name
  mem_aliases : ∀ aliasName ∈ head.aliasName, aliasName ∈ aliases

namespace FieldHead.IsNamedIn

variable {aliases : List String} {head : FieldHead} (h : head.IsNamedIn aliases)
include h

theorem mono {others : List String} (hmem : ∀ aliasName ∈ aliases, aliasName ∈ others) :
    head.IsNamedIn others :=
  ⟨h.responseKey, fun aliasName halias => hmem aliasName (h.mem_aliases aliasName halias)⟩

theorem isNamed (haliases : "" ∉ aliases) : head.IsNamed :=
  ⟨h.responseKey, fun halias => haliases (h.mem_aliases "" halias)⟩

end FieldHead.IsNamedIn

namespace Typing

variable {schema : Schema} {fragmentType? : String → Option String} {parent : String}
  {types seen : List String} {selections : List Source.Selection} {typed : List Selection}

theorem mem_allSpreadsWithin (h : Typing schema fragmentType? parent types seen selections typed)
    {name : String} (hname : name ∈ Selection.allSpreads typed) :
    name ∈ Validity.allSpreadsWithin selections := by
  induction h with
  | nil => cases hname
  | excluded _ _ ih => exact List.mem_append_right _ (ih hname)
  | repeated _ _ ih => exact List.mem_append_right _ (ih hname)
  | leaf _ _ _ _ ih =>
    rw [Selection.allSpreads, Selection.spreads_under] at hname
    exact List.mem_append_right _ (ih hname)
  | composite _ _ _ _ _ ihInner ih =>
    rw [Selection.allSpreads, Selection.spreads_under] at hname
    rcases List.mem_append.mp hname with hname | hname
    · exact List.mem_append_left _ (ihInner hname)
    · exact List.mem_append_right _ (ih hname)
  | spread _ _ _ _ ih =>
    rw [Selection.allSpreads, Selection.spreads_under, spreads_spreadWithin] at hname
    rcases List.mem_append.mp hname with hname | hname
    · exact List.mem_append_left _ hname
    · exact List.mem_append_right _ (ih hname)
  | inline _ _ _ ihInner ih =>
    rw [Selection.allSpreads, Selection.spreads_under] at hname
    rcases List.mem_append.mp hname with hname | hname
    · exact List.mem_append_left _ (ihInner hname)
    · exact List.mem_append_right _ (ih hname)

theorem isNamedIn (h : Typing schema fragmentType? parent types seen selections typed)
    {head : FieldHead} (hhead : head ∈ Selection.allHeads typed) :
    head.IsNamedIn (Source.Selection.allAliases selections) := by
  have hlater : ∀ {selection : Source.Selection} {rest : List Source.Selection},
      head.IsNamedIn (Source.Selection.allAliases rest) →
        head.IsNamedIn (Source.Selection.allAliases (selection :: rest)) :=
    fun hrest => hrest.mono fun _ => List.mem_append_right _
  have hinside : ∀ {aliasName : Option String} {inner rest : List String},
      head.IsNamedIn inner → head.IsNamedIn ((aliasName.toList ++ inner) ++ rest) :=
    fun hinner => hinner.mono fun _ hmem =>
      List.mem_append_left _ (List.mem_append_right _ hmem)
  have hfield : ∀ {definition : Schema.Field} {aliasName : Option String} {name : String}
      {arguments : List Source.Argument} {inner rest : List String},
      head = FieldHead.ofDefinition definition aliasName name arguments →
        head.IsNamedIn ((aliasName.toList ++ inner) ++ rest) := by
    rintro definition aliasName name arguments inner rest rfl
    refine ⟨rfl, fun other hother => ?_⟩
    exact List.mem_append_left _ (List.mem_append_left _ (Option.mem_toList.mpr hother))
  induction h with
  | nil => cases hhead
  | excluded _ _ ih => exact hlater (ih hhead)
  | repeated _ _ ih => exact hlater (ih hhead)
  | leaf _ _ _ _ ih =>
    rw [Selection.allHeads, Selection.heads_under] at hhead
    rcases List.mem_append.mp hhead with hhead | hhead
    · exact hfield (List.mem_singleton.mp hhead)
    · exact hlater (ih hhead)
  | composite _ _ _ _ _ ihInner ih =>
    rw [Selection.allHeads, Selection.heads_under] at hhead
    rcases List.mem_append.mp hhead with hhead | hhead
    · rcases List.mem_cons.mp hhead with hown | hhead
      · exact hfield hown
      · exact hinside (ihInner hhead)
    · exact hlater (ih hhead)
  | spread _ _ _ _ ih =>
    rw [Selection.allHeads, Selection.heads_under, heads_spreadWithin] at hhead
    exact hlater (ih hhead)
  | inline _ _ _ ihInner ih =>
    rw [Selection.allHeads, Selection.heads_under] at hhead
    rcases List.mem_append.mp hhead with hhead | hhead
    · exact (ihInner hhead).mono fun _ => List.mem_append_left _
    · exact hlater (ih hhead)

end Typing

def Document.heads (document : Document) : List FieldHead :=
  document.operations.flatMap (fun operation =>
    Selection.allHeads operation.selectionSet.selections) ++
  document.fragments.flatMap fun fragment => Selection.allHeads fragment.selectionSet.selections

/-- All fields of the document are named as they are written. -/
structure Document.HasNames (document : Document) : Prop where
  operation : ∀ operation ∈ document.operations,
    ∀ head ∈ Selection.allHeads operation.selectionSet.selections, head.IsNamed
  fragment : ∀ fragment ∈ document.fragments,
    ∀ head ∈ Selection.allHeads fragment.selectionSet.selections, head.IsNamed

namespace Document

variable {document : Document}

theorem mem_heads_of_operation {operation : Operation} (hmem : operation ∈ document.operations) :
    ∀ head ∈ Selection.allHeads operation.selectionSet.selections, head ∈ document.heads :=
  fun _ hhead => List.mem_append_left _ (List.mem_flatMap.mpr ⟨operation, hmem, hhead⟩)

theorem mem_heads_of_fragment {fragment : Fragment} (hmem : fragment ∈ document.fragments) :
    ∀ head ∈ Selection.allHeads fragment.selectionSet.selections, head ∈ document.heads :=
  fun _ hhead => List.mem_append_right _ (List.mem_flatMap.mpr ⟨fragment, hmem, hhead⟩)

theorem HasNames.of_mem_heads (h : document.HasNames) :
    ∀ head ∈ document.heads, head.IsNamed := by
  intro head hhead
  rcases List.mem_append.mp hhead with hhead | hhead
  · obtain ⟨operation, hmem, hhead⟩ := List.mem_flatMap.mp hhead
    exact h.operation operation hmem head hhead
  · obtain ⟨fragment, hmem, hhead⟩ := List.mem_flatMap.mp hhead
    exact h.fragment fragment hmem head hhead

end Document

section

variable {schema : Schema} {fragmentType? : String → Option String} {filePath : Option String}

theorem typing_of_ofSource {parent : String} {selections : List Source.Selection}
    {set : SelectionSet}
    (h : SelectionSet.ofSource schema fragmentType? parent selections = .ok set) :
    set.possibleTypes = schema.possibleTypes parent ∧
      Typing schema fragmentType? parent (schema.possibleTypes parent) [] selections
        set.selections := by
  simp only [SelectionSet.ofSource, Outcome.bind_eq_ok, Outcome.pure_eq_ok] at h
  obtain ⟨typed, htyped, rfl⟩ := h
  exact ⟨rfl, typing_of_allOfSource htyped⟩

theorem Fragment.ofSource_eq_ok {written : Source.Fragment} {fragment : Fragment} :
    Fragment.ofSource schema fragmentType? filePath written = .ok fragment ↔
      ∃ set, SelectionSet.ofSource schema fragmentType? written.typeCondition written.selections =
          .ok set ∧
        ⟨filePath, written.name, written.print, written.typeCondition, set⟩ = fragment := by
  simp only [Fragment.ofSource, Outcome.bind_eq_ok, Outcome.pure_eq_ok]

theorem Operation.ofSource_eq_ok {written : Source.Operation} {operation : Operation} :
    Operation.ofSource schema fragmentType? filePath written = .ok operation ↔
      ∃ name, written.name = some name ∧ ∃ root, schema.rootType? written.kind = some root ∧
        ∃ set, SelectionSet.ofSource schema fragmentType? root written.selections = .ok set ∧
          { filePath, name, kind := written.kind, rootType := root
            variableTypes := written.variableDefinitions.map fun definition =>
              ⟨definition.name, definition.type⟩
            source := written.print, selectionSet := set : Operation } = operation := by
  rw [Operation.ofSource]
  cases written.name with
  | none => simp
  | some name =>
    cases schema.rootType? written.kind with
    | none => simp
    | some root =>
      simp only [Outcome.bind_eq_ok, Outcome.pure_eq_ok]
      simp

end

/-- The fragments and operations of the typed document are what typing makes of those written. -/
structure Document.IsTyped (schema : Schema) (filePath : Option String) (written : Source.Document)
    (document : Document) : Prop where
  fragments : written.fragments.mapM (Fragment.ofSource schema written.fragmentType? filePath) =
    .ok document.fragments
  operations :
    written.operations.mapM (Operation.ofSource schema written.fragmentType? filePath) =
      .ok document.operations

namespace Document

variable {schema : Schema} {filePath : Option String} {written : Source.Document}
  {document : Document}

theorem isTyped_of_ofSource (h : Document.ofSource schema filePath written = .ok document) :
    IsTyped schema filePath written document := by
  simp only [Document.ofSource, Outcome.bind_eq_ok, Outcome.pure_eq_ok] at h
  obtain ⟨fragments, hfragments, operations, hoperations, rfl⟩ := h
  exact ⟨hfragments, hoperations⟩

/-- A document that is compiled is valid, and its typed form is that of what is prepared from it. -/
theorem isTyped_of_compile {options : Options} {source : Source.Document}
    (h : Document.compile schema options filePath source = .ok document) :
    Validity.typesValid schema = true ∧ Validity.isValid schema source = true ∧
      IsTyped schema filePath (source.prepared options) document := by
  simp only [Document.compile, Outcome.guard_eq_ok, Outcome.mapError_eq_ok] at h
  obtain ⟨htypes, _, hvalid, htyped⟩ := h
  exact ⟨htypes, hvalid, isTyped_of_ofSource htyped⟩

namespace IsTyped

variable (h : IsTyped schema filePath written document)
include h

theorem rel_fragment? (name : String) :
    Option.Rel
      (fun original fragment =>
        Fragment.ofSource schema written.fragmentType? filePath original = .ok fragment)
      (written.fragment? name) (document.fragment? name) := by
  apply rel_find?_of_forall₂ (Outcome.mapM_eq_ok.mp h.fragments)
  intro original fragment hfragment
  obtain ⟨_, _, rfl⟩ := Fragment.ofSource_eq_ok.mp hfragment
  rfl

theorem isSome_fragment? (name : String) :
    (document.fragment? name).isSome = (written.fragment? name).isSome :=
  isSome_eq_of_rel (h.rel_fragment? name)

theorem exists_fragment {name : String} {fragment : Fragment}
    (hfragment : document.fragment? name = some fragment) :
    ∃ original, written.fragment? name = some original ∧
      Fragment.ofSource schema written.fragmentType? filePath original = .ok fragment :=
  exists_eq_some_of_rel_right (h.rel_fragment? name) hfragment

theorem typing_of_mem_fragments {fragment : Fragment} (hmem : fragment ∈ document.fragments) :
    ∃ original ∈ written.fragments,
      Typing schema written.fragmentType? original.typeCondition
        (schema.possibleTypes original.typeCondition) [] original.selections
        fragment.selectionSet.selections := by
  obtain ⟨original, horiginal, hsource⟩ := Outcome.exists_of_mem_mapM h.fragments hmem
  obtain ⟨set, hset, rfl⟩ := Fragment.ofSource_eq_ok.mp hsource
  exact ⟨original, horiginal, (typing_of_ofSource hset).2⟩

theorem typing_of_fragment? {name : String} {original : Source.Fragment}
    (horiginal : written.fragment? name = some original) :
    ∃ fragment, document.fragment? name = some fragment ∧
      fragment.selectionSet.possibleTypes = schema.possibleTypes original.typeCondition ∧
      Typing schema written.fragmentType? original.typeCondition
        (schema.possibleTypes original.typeCondition) [] original.selections
        fragment.selectionSet.selections := by
  obtain ⟨fragment, hfragment⟩ : ∃ fragment, document.fragment? name = some fragment := by
    rw [← Option.isSome_iff_exists, h.isSome_fragment?, horiginal]
    rfl
  obtain ⟨other, hother, hsource⟩ := h.exists_fragment hfragment
  obtain rfl := Option.some.inj (horiginal.symm.trans hother)
  obtain ⟨set, hset, rfl⟩ := Fragment.ofSource_eq_ok.mp hsource
  exact ⟨_, hfragment, typing_of_ofSource hset⟩

theorem typing_of_mem_operations {operation : Operation} (hmem : operation ∈ document.operations) :
    ∃ original ∈ written.operations, ∃ root,
      Typing schema written.fragmentType? root (schema.possibleTypes root) [] original.selections
        operation.selectionSet.selections := by
  obtain ⟨original, horiginal, hsource⟩ := Outcome.exists_of_mem_mapM h.operations hmem
  obtain ⟨_, _, root, _, set, hset, rfl⟩ := Operation.ofSource_eq_ok.mp hsource
  exact ⟨original, horiginal, root, (typing_of_ofSource hset).2⟩

theorem isClosed (hclosed : written.IsClosed) : document.IsClosed where
  operation operation hmem name hname := by
    obtain ⟨original, horiginal, _, htyping⟩ := h.typing_of_mem_operations hmem
    rw [h.isSome_fragment?]
    exact hclosed.operation original horiginal name (htyping.mem_allSpreadsWithin hname)
  fragment fragment hmem name hname := by
    obtain ⟨original, horiginal, htyping⟩ := h.typing_of_mem_fragments hmem
    rw [h.isSome_fragment?]
    exact hclosed.fragment original horiginal name (htyping.mem_allSpreadsWithin hname)

theorem mem_spreadsOf {name next : String} (hnext : next ∈ document.spreadsOf name) :
    next ∈ written.spreadsOf name := by
  cases hfragment : document.fragment? name with
  | none =>
    rw [spreadsOf, hfragment] at hnext
    cases hnext
  | some fragment =>
    obtain ⟨original, horiginal, hsource⟩ := h.exists_fragment hfragment
    obtain ⟨set, hset, rfl⟩ := Fragment.ofSource_eq_ok.mp hsource
    rw [spreadsOf_eq hfragment] at hnext
    rw [Source.Document.spreadsOf_eq horiginal]
    exact (typing_of_ofSource hset).2.mem_allSpreadsWithin hnext

theorem isAcyclic (hacyclic : written.IsAcyclic) : document.IsAcyclic :=
  fun name hcycle => hacyclic name (Relation.TransGen.mono (fun _ _ => h.mem_spreadsOf) _ _ hcycle)

theorem isNamedIn {head : FieldHead} (hhead : head ∈ document.heads) :
    head.IsNamedIn written.aliases := by
  rcases List.mem_append.mp hhead with hhead | hhead
  · obtain ⟨operation, hmem, hhead⟩ := List.mem_flatMap.mp hhead
    obtain ⟨original, horiginal, _, htyping⟩ := h.typing_of_mem_operations hmem
    exact (htyping.isNamedIn hhead).mono fun _ halias =>
      List.mem_append_left _ (List.mem_flatMap.mpr ⟨original, horiginal, halias⟩)
  · obtain ⟨fragment, hmem, hhead⟩ := List.mem_flatMap.mp hhead
    obtain ⟨original, horiginal, htyping⟩ := h.typing_of_mem_fragments hmem
    exact (htyping.isNamedIn hhead).mono fun _ halias =>
      List.mem_append_right _ (List.mem_flatMap.mpr ⟨original, horiginal, halias⟩)

end IsTyped

section

variable {options : Options} {source : Source.Document}

theorem isClosed_of_compile (h : Document.compile schema options filePath source = .ok document) :
    document.IsClosed := by
  obtain ⟨_, hvalid, htyped⟩ := isTyped_of_compile h
  exact htyped.isClosed ((Validity.isClosed_of_isValid hvalid).prepared options)

theorem isAcyclic_of_compile (h : Document.compile schema options filePath source = .ok document) :
    document.IsAcyclic := by
  obtain ⟨_, hvalid, htyped⟩ := isTyped_of_compile h
  exact htyped.isAcyclic ((Validity.isAcyclic_of_isValid hvalid).prepared options)

theorem isNamedIn_of_compile (h : Document.compile schema options filePath source = .ok document)
    {head : FieldHead} (hhead : head ∈ document.heads) : head.IsNamedIn source.aliases := by
  obtain ⟨_, _, htyped⟩ := isTyped_of_compile h
  exact Source.Document.aliases_prepared options ▸ htyped.isNamedIn hhead

theorem hasNames_of_compile (h : Document.compile schema options filePath source = .ok document)
    (haliases : "" ∉ source.aliases) : document.HasNames where
  operation _ hmem head hhead :=
    (isNamedIn_of_compile h (mem_heads_of_operation hmem head hhead)).isNamed haliases
  fragment _ hmem head hhead :=
    (isNamedIn_of_compile h (mem_heads_of_fragment hmem head hhead)).isNamed haliases

end

end Document

end QueryShape.Typed
