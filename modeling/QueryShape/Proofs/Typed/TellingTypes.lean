import Mathlib.Data.List.Induction
import QueryShape.Proofs.Schema.OutputTypes
import QueryShape.Proofs.Source.SelectionSets
import QueryShape.Proofs.Typed.Compiled

/-!
# Selection sets that tell types

A selection set tells the types of objects if it always includes `__typename` under this response
key. With `__typename` fields added, that of a field or of a fragment does so if no `__typename`
without an alias is written in it, since then one is added. Otherwise none is added, and the set
tells types only if a `__typename` is written in it that no directive excludes or puts under a
check. -/

set_option autoImplicit false

namespace QueryShape.Source.Selection

/-- Whether the selection is a `__typename` field under this response key, which no directive
excludes or puts under a check. -/
def tellsType : Selection → Bool
  | .field aliasName name _ directives _ =>
    name == typenameName && aliasName.getD name == typenameName &&
      Typed.checksOf? directives == some []
  | _ => false

theorem tellsType_addTypename (selection : Selection) :
    selection.addTypename.tellsType = selection.tellsType := by
  cases selection <;> rfl

theorem tellsType_typenameField : typenameField.tellsType = true := rfl

theorem tellsType_of_excluded {selection : Selection}
    (h : Typed.checksOf? selection.directives = none) : selection.tellsType = false := by
  cases selection with
  | field aliasName name arguments directives inner =>
    have hdirectives : Typed.checksOf? directives = none := h
    simp [tellsType, hdirectives]
  | fragmentSpread | inlineFragment => rfl

theorem any_tellsType_withTypename {written : List Selection} :
    (withTypename (addTypenames written)).any tellsType = true ↔
      (written ≠ [] ∧ ∀ selection ∈ written, selection.isTypename = false) ∨
        ∃ selection ∈ written, selection.tellsType = true := by
  have htells : (addTypenames written).any tellsType = written.any tellsType := by
    rw [addTypenames_eq_map, List.any_map]
    exact congrArg _ (funext tellsType_addTypename)
  have htypename : (addTypenames written).any isTypename = written.any isTypename := by
    rw [addTypenames_eq_map, List.any_map]
    exact congrArg _ (funext isTypename_addTypename)
  have hempty : (addTypenames written).isEmpty = written.isEmpty := by
    rw [addTypenames_eq_map, List.isEmpty_map]
  rw [withTypename, htypename, hempty, ← List.any_eq_true]
  by_cases hadds : written ≠ [] ∧ ∀ selection ∈ written, selection.isTypename = false
  · have hlacks : (written.isEmpty || written.any isTypename) = false := by
      simpa using hadds
    rw [hlacks]
    exact iff_of_true (by simp [tellsType_typenameField]) (Or.inl hadds)
  · have hhas : (written.isEmpty || written.any isTypename) = true := by
      by_contra hnot
      exact hadds (by simpa using hnot)
    rw [hhas, if_pos rfl, htells, or_iff_right hadds]

end QueryShape.Source.Selection

namespace QueryShape.Typed

def Selection.tellsType : Selection → Bool
  | .leaf head | .composite head _ _ =>
    head.name == Source.typenameName && head.responseKey == Source.typenameName &&
      !head.isConditional && head.conditions.isEmpty
  | _ => false

def SelectionSet.tellsType (set : SelectionSet) : Bool :=
  set.selections.any Selection.tellsType

mutual

def Selection.fieldSets : Selection → List SelectionSet
  | .leaf _ => []
  | .composite _ types selections => ⟨types, selections⟩ :: Selection.allFieldSets selections
  | .typeCondition _ _ selections => Selection.allFieldSets selections
  | .booleanCondition _ _ selections => Selection.allFieldSets selections
  | .fragmentSpread _ => []

def Selection.allFieldSets : List Selection → List SelectionSet
  | [] => []
  | selection :: rest => Selection.fieldSets selection ++ Selection.allFieldSets rest

end

def Document.innerSets (document : Document) : List SelectionSet :=
  document.operations.flatMap (Selection.allFieldSets ·.selectionSet.selections) ++
    document.fragments.flatMap fun fragment =>
      fragment.selectionSet :: Selection.allFieldSets fragment.selectionSet.selections

namespace Selection

variable (types : List String) (checks : List Check) (selection : Selection)

theorem tellsType_under :
    (selection.under types checks).tellsType = (checks.isEmpty && selection.tellsType) := by
  cases checks using List.reverseRecOn with
  | nil => rfl
  | append_singleton checks check =>
    rw [under, List.foldl_append]
    simp [tellsType]

@[simp] theorem fieldSets_under :
    (selection.under types checks).fieldSets = selection.fieldSets := by
  induction checks generalizing selection with
  | nil => rfl
  | cons check rest ih =>
    refine (ih _).trans ?_
    simp [fieldSets, allFieldSets]

end Selection

theorem tellsType_spreadWithin (schema : Schema) (types : List String)
    (name fragmentType : String) :
    (spreadWithin schema types name fragmentType).tellsType = false := by
  rw [spreadWithin]
  split <;> rfl

@[simp] theorem fieldSets_spreadWithin (schema : Schema) (types : List String)
    (name fragmentType : String) :
    (spreadWithin schema types name fragmentType).fieldSets = [] := by
  rw [spreadWithin]
  split <;> rfl

namespace Typing

variable {schema : Schema} {fragmentType? : String → Option String} {parent : String}
  {types seen : List String} {typed : List Selection}

theorem tellsType_under_of_checksOf? {aliasName : Option String} {name : String}
    {arguments : List Source.Argument} {directives : List Source.Directive}
    {inner : List Source.Selection} {checks : List Check} {selection : Selection}
    (hchecks : checksOf? directives = some checks)
    (hselection : selection.tellsType =
      (name == Source.typenameName && aliasName.getD name == Source.typenameName)) :
    (selection.under types checks).tellsType =
      (Source.Selection.field aliasName name arguments directives inner).tellsType := by
  rw [Selection.tellsType_under, hselection, Source.Selection.tellsType, hchecks]
  cases checks <;> simp

/-- Typed selections tell types exactly if the written ones do. -/
theorem any_tellsType {selections : List Source.Selection}
    (h : Typing schema fragmentType? parent types seen selections typed) :
    typed.any Selection.tellsType = selections.any Source.Selection.tellsType := by
  induction h with
  | nil => rfl
  | excluded hexcluded _ ih =>
    rw [List.any_cons, Source.Selection.tellsType_of_excluded hexcluded, Bool.false_or, ih]
  | repeated _ _ ih => exact ih
  | leaf hchecks _ _ _ ih | composite hchecks _ _ _ _ _ ih =>
    rw [List.any_cons, List.any_cons, ih]
    congr 1
    apply tellsType_under_of_checksOf? hchecks
    simp [Selection.tellsType, FieldHead.ofDefinition]
  | spread _ _ _ _ ih =>
    rw [List.any_cons, List.any_cons, ih, Selection.tellsType_under, tellsType_spreadWithin,
      Bool.and_false]
    rfl
  | inline _ _ _ _ ih =>
    rw [List.any_cons, List.any_cons, ih, Selection.tellsType_under]
    simp [Selection.tellsType, Source.Selection.tellsType]

theorem exists_without_typename (hstring : schema.body? "String" = some .scalar)
    {selections : List Source.Selection}
    (h : Typing schema fragmentType? parent types seen (Source.Selection.withTypename selections)
      typed) :
    ∃ others, Typing schema fragmentType? parent types seen selections others ∧
      Selection.allFieldSets others = Selection.allFieldSets typed := by
  rw [Source.Selection.withTypename] at h
  split at h
  · exact ⟨typed, h, rfl⟩
  · cases h with
    | excluded hexcluded _ => cases hexcluded
    | leaf _ _ _ hrest =>
      refine ⟨_, hrest, ?_⟩
      rw [Selection.allFieldSets, Selection.fieldSets_under]
      rfl
    | composite _ hdefinition hcomposite _ _ =>
      cases hdefinition
      rw [show Schema.typenameField.type.innermost = "String" from rfl,
        Schema.isComposite_of_scalar hstring] at hcomposite
      cases hcomposite

theorem exists_written_of_mem_allFieldSets (hstring : schema.body? "String" = some .scalar)
    {document : Source.Document} {whole selections : List Source.Selection}
    (hwhole : document.HasSelections schema parent whole)
    (hsub : ∀ selection ∈ selections, selection ∈ whole)
    (h : Typing schema fragmentType? parent types seen (Source.Selection.addTypenames selections)
      typed) {set : SelectionSet} (hset : set ∈ Selection.allFieldSets typed) :
    ∃ type written, document.HasInner schema type written ∧
      set.possibleTypes = schema.possibleTypes type ∧
      Typing schema fragmentType? type (schema.possibleTypes type) []
        (Source.Selection.withTypename (Source.Selection.addTypenames written)) set.selections := by
  induction selections using Source.Selection.listInduction
    generalizing parent whole types seen typed with
  | nil =>
    cases h
    cases hset
  | field aliasName name arguments directives inner rest ihInner ih =>
    obtain ⟨hfield, hrest⟩ := List.forall_mem_cons.mp hsub
    cases h with
    | excluded _ htyping => exact ih hwhole hrest htyping hset
    | leaf _ _ _ htyping =>
      rw [Selection.allFieldSets, Selection.fieldSets_under] at hset
      exact ih hwhole hrest htyping hset
    | composite _ hdefinition hcomposite hinner htyping =>
      rw [Selection.allFieldSets, Selection.fieldSets_under] at hset
      rcases List.mem_append.mp hset with hset | hset
      · -- The set is that of the field itself or one below, where an added `__typename` has none.
        have hhas := Source.Document.HasInner.field hwhole hfield hdefinition hcomposite
        rcases List.mem_cons.mp hset with rfl | hset
        · exact ⟨_, inner, hhas, rfl, hinner⟩
        · obtain ⟨others, hothers, hsame⟩ := exists_without_typename hstring hinner
          exact ihInner hhas.hasSelections (fun _ => id) hothers (hsame ▸ hset)
      · exact ih hwhole hrest htyping hset
  | fragmentSpread name directives rest ih =>
    have hrest := (List.forall_mem_cons.mp hsub).2
    cases h with
    | excluded _ htyping => exact ih hwhole hrest htyping hset
    | repeated _ htyping => exact ih hwhole hrest htyping hset
    | spread _ _ _ htyping =>
      rw [Selection.allFieldSets, Selection.fieldSets_under, fieldSets_spreadWithin] at hset
      exact ih hwhole hrest htyping hset
  | inlineFragment condition directives inner rest ihInner ih =>
    obtain ⟨hinline, hrest⟩ := List.forall_mem_cons.mp hsub
    cases h with
    | excluded _ htyping => exact ih hwhole hrest htyping hset
    | inline _ hinner htyping =>
      rw [Selection.allFieldSets, Selection.fieldSets_under] at hset
      rcases List.mem_append.mp hset with hset | hset
      · exact ihInner (.inlineFragment hwhole hinline) (fun _ => id) hinner hset
      · exact ih hwhole hrest htyping hset

theorem tellsType_iff {fragmentType? : String → Option String} {type : String}
    {types : List String} {written : List Source.Selection} {set : SelectionSet}
    (h : Typing schema fragmentType? type types []
      (Source.Selection.withTypename (Source.Selection.addTypenames written)) set.selections) :
    set.tellsType = true ↔
      (written ≠ [] ∧ ∀ selection ∈ written, selection.isTypename = false) ∨
        ∃ selection ∈ written, selection.tellsType = true := by
  rw [SelectionSet.tellsType, h.any_tellsType]
  exact Source.Selection.any_tellsType_withTypename

end Typing

/-- The set is typed from one that is written inside of the document, with `__typename` fields
added. It tells types if and only if in the written one there is no `__typename` without an alias,
so that one is added, or there is a `__typename` that no directive excludes or puts under a check.
-/
def SelectionSet.IsToldAsWritten (schema : Schema) (source : Source.Document)
    (set : SelectionSet) : Prop :=
  ∃ type written, source.HasInner schema type written ∧
    set.possibleTypes = schema.possibleTypes type ∧
    Typing schema source.fragmentType? type (schema.possibleTypes type) []
      (Source.Selection.withTypename (Source.Selection.addTypenames written)) set.selections ∧
    (set.tellsType = true ↔
      (written ≠ [] ∧ ∀ selection ∈ written, selection.isTypename = false) ∨
        ∃ selection ∈ written, selection.tellsType = true)

namespace Document

variable {schema : Schema} {options : Options} {filePath : Option String}
  {source : Source.Document} {document : Document}

theorem mem_innerSets {set : SelectionSet} :
    set ∈ document.innerSets ↔
      (∃ operation ∈ document.operations,
        set ∈ Selection.allFieldSets operation.selectionSet.selections) ∨
      ∃ fragment ∈ document.fragments, set = fragment.selectionSet ∨
        set ∈ Selection.allFieldSets fragment.selectionSet.selections := by
  simp only [innerSets, List.mem_append, List.mem_flatMap, List.mem_cons]

theorem exists_written_of_compile (hstring : schema.body? "String" = some .scalar)
    (hadd : options.addTypename = true)
    (hcompile : compile schema options filePath source = .ok document) {set : SelectionSet}
    (hset : set ∈ document.innerSets) :
    ∃ type written, source.HasInner schema type written ∧
      set.possibleTypes = schema.possibleTypes type ∧
      Typing schema source.fragmentType? type (schema.possibleTypes type) []
        (Source.Selection.withTypename (Source.Selection.addTypenames written)) set.selections := by
  obtain ⟨_, _, htyped⟩ := isTyped_of_compile hcompile
  have hprepared : source.prepared options = source.addTypename := by
    rw [Source.Document.prepared, hadd, if_pos rfl]
  have htypes : source.addTypename.fragmentType? = source.fragmentType? := by
    funext name
    rw [Source.Document.fragmentType?, Source.Document.fragmentType?,
      Source.Document.fragment?_addTypename, Option.map_map]
    rfl
  rw [hprepared] at htyped
  rcases mem_innerSets.mp hset with ⟨operation, hmem, hset⟩ | ⟨fragment, hmem, hset⟩
  · obtain ⟨original, horiginal, hsource⟩ := Outcome.exists_of_mem_mapM htyped.operations hmem
    obtain ⟨_, _, root, hroot, typed, htyped, rfl⟩ := Operation.ofSource_eq_ok.mp hsource
    have htyping := (typing_of_ofSource htyped).2
    rw [Source.Document.operations_addTypename] at horiginal
    obtain ⟨written, hwritten, rfl⟩ := List.mem_map.mp horiginal
    rw [htypes] at htyping
    exact htyping.exists_written_of_mem_allFieldSets hstring (.operation hwritten hroot)
      (fun _ => id) hset
  · obtain ⟨original, horiginal, hsource⟩ := Outcome.exists_of_mem_mapM htyped.fragments hmem
    obtain ⟨typed, htyped, rfl⟩ := Fragment.ofSource_eq_ok.mp hsource
    obtain ⟨hpossible, htyping⟩ := typing_of_ofSource htyped
    rw [Source.Document.fragments_addTypename] at horiginal
    obtain ⟨written, hwritten, rfl⟩ := List.mem_map.mp horiginal
    rw [htypes] at htyping
    rcases hset with rfl | hset
    · exact ⟨_, _, .fragment hwritten, hpossible, htyping⟩
    · obtain ⟨others, hothers, hsame⟩ := Typing.exists_without_typename hstring htyping
      exact hothers.exists_written_of_mem_allFieldSets hstring (.fragment hwritten) (fun _ => id)
        (hsame ▸ hset)

/-- In a document that is compiled with `__typename` fields added, the selection set of any field or
fragment is told as it is written. -/
theorem tellsType_iff_of_compile (hstring : schema.body? "String" = some .scalar)
    (hadd : options.addTypename = true)
    (hcompile : compile schema options filePath source = .ok document) :
    ∀ set ∈ document.innerSets, set.IsToldAsWritten schema source := by
  intro set hset
  obtain ⟨type, written, hinner, hpossible, htyping⟩ :=
    exists_written_of_compile hstring hadd hcompile hset
  exact ⟨type, written, hinner, hpossible, htyping, htyping.tellsType_iff⟩

/-- A query for animals, with a `__typename` that a literal excludes, and for the names of friends.
-/
def excludedTypename : Source.Document where
  definitions :=
    [.operation
       { description := none
         kind := .query
         name := some "Q"
         variableDefinitions := []
         directives := []
         selections := [.field none "animal" [] []
           [.field none "__typename" [] [⟨"skip", [⟨"if", .boolean true⟩]⟩] [],
            .inlineFragment (some "Dog") []
              [.field none "friend" [] [] [.field none "name" [] [] []]]]] }]

theorem exists_compile_excludedTypename :
    ∃ document,
      compile Schema.animals { addTypename := true } none excludedTypename = .ok document ∧
      document.innerSets.map (fun set => (set.possibleTypes, set.tellsType)) =
        [(["Dog", "Cat"], false), (["Dog", "Cat"], true)] := by
  obtain ⟨document, hcompile⟩ : ∃ document,
      compile Schema.animals { addTypename := true } none excludedTypename = .ok document :=
    Outcome.exists_eq_ok (by decide +kernel)
  have hsets : (compile Schema.animals { addTypename := true } none
      excludedTypename).toOption.map (·.innerSets.map fun set =>
        (set.possibleTypes, set.tellsType)) =
      some [(["Dog", "Cat"], false), (["Dog", "Cat"], true)] := by decide +kernel
  rw [hcompile] at hsets
  exact ⟨document, hcompile, Option.some.inj hsets⟩

theorem tellsType_iff_of_compile_excludedTypename :
    ∃ document set type written,
      compile Schema.animals { addTypename := true } none excludedTypename = .ok document ∧
      set ∈ document.innerSets ∧ set.tellsType = true ∧
      excludedTypename.HasInner Schema.animals type written ∧
      ((written ≠ [] ∧ ∀ selection ∈ written, selection.isTypename = false) ∨
        ∃ selection ∈ written, selection.tellsType = true) := by
  obtain ⟨document, hcompile, hsets⟩ := exists_compile_excludedTypename
  obtain ⟨set, hset, hvalues⟩ : ∃ set ∈ document.innerSets,
      (set.possibleTypes, set.tellsType) = (["Dog", "Cat"], true) := by
    rw [← List.mem_map, hsets]
    decide
  have htells : set.tellsType = true := (Prod.mk.inj hvalues).2
  obtain ⟨type, written, hinner, _, _, hiff⟩ := tellsType_iff_of_compile rfl rfl hcompile set hset
  exact ⟨document, set, type, written, hcompile, hset, htells, hinner, hiff.mp htells⟩

/-- The types of the animals themselves are not told: no `__typename` is added beside the excluded
one. -/
theorem not_tellsType_excludedTypename :
    ∃ document set,
      compile Schema.animals { addTypename := true } none excludedTypename = .ok document ∧
      set ∈ document.innerSets ∧ set.tellsType = false := by
  obtain ⟨document, hcompile, hsets⟩ := exists_compile_excludedTypename
  obtain ⟨set, hset, hvalues⟩ : ∃ set ∈ document.innerSets,
      (set.possibleTypes, set.tellsType) = (["Dog", "Cat"], false) := by
    rw [← List.mem_map, hsets]
    decide
  exact ⟨document, set, hcompile, hset, (Prod.mk.inj hvalues).2⟩

end Document

end QueryShape.Typed
