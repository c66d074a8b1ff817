import QueryShape.Proofs.Typed.Fitting

/-!
# Selection sets of compiled documents are well formed

Merging, type cases and the collection of spreads rely on what typing says about each selection set
by itself: which possible types a condition, a check and a composite field have next to those of the
set around them, and that a fragment is spread without a condition only where it applies to all
types.
-/

set_option autoImplicit false

namespace QueryShape.Typed

/-- What holds of the selections of a set, given the schema and the document that it is in. -/
structure SelectionSet.IsWellFormed (schema : Schema) (document : Document) (set : SelectionSet) :
    Prop where
  /-- A condition has the types of the set, in their order, that it may resolve to. -/
  narrows : ∀ condition narrowed inner, .typeCondition condition narrowed inner ∈ set.selections →
    narrowed = set.possibleTypes.filter (· ∈ schema.possibleTypes condition)
  /-- A check has the types of the set. -/
  keeps : ∀ check types inner, .booleanCondition check types inner ∈ set.selections →
    types = set.possibleTypes
  /-- Composite fields and only they have selection sets. -/
  nests : ∀ field : Field, field.toSelection ∈ set.selections →
    (field.selectionSet.isSome ↔ schema.isComposite field.head.type.innermost = true)
  /-- The selection set of a field has all possible types of its type in the schema's order. -/
  covers : ∀ (field : Field) (nested : SelectionSet), field.toSelection ∈ set.selections →
    field.selectionSet = some nested →
      nested.possibleTypes = schema.possibleTypes field.head.type.innermost
  /-- A fragment that is spread is defined and applies to all types of the set. -/
  applies : ∀ name, .fragmentSpread name ∈ set.selections →
    ∃ fragment, document.fragment? name = some fragment ∧
      ∀ type ∈ set.possibleTypes, type ∈ fragment.selectionSet.possibleTypes

section

variable {schema : Schema} {document : Document}

theorem Selection.Fits.field {types : List String} {field : Field}
    (h : field.toSelection.Fits schema document types) :
    (field.selectionSet.isSome ↔ schema.isComposite field.head.type.innermost = true) ∧
      ∀ nested, field.selectionSet = some nested →
        nested.possibleTypes = schema.possibleTypes field.head.type.innermost := by
  rw [Field.toSelection] at h
  cases hnested : field.selectionSet with
  | none =>
    rw [hnested] at h
    obtain ⟨_, hleaf⟩ := h
    simp [hleaf]
  | some nested =>
    rw [hnested] at h
    obtain ⟨_, hcomposite, htypes, _⟩ := h
    simp [hcomposite, htypes]

theorem SelectionSet.isWellFormed_of_allFit {set : SelectionSet}
    (h : Selection.AllFit schema document set.possibleTypes set.selections) :
    set.IsWellFormed schema document := by
  have hfits := Selection.allFit_iff.mp h
  constructor
  · exact fun condition narrowed inner hmem => (hfits _ hmem).1
  · exact fun check types inner hmem => (hfits _ hmem).1
  · exact fun field hmem => (hfits _ hmem).field.1
  · exact fun field nested hmem => (hfits _ hmem).field.2 nested
  · exact fun name hmem => hfits _ hmem

variable {options : Options} {filePath : Option String} {source : Source.Document}

/-- Every selection set of a compiled document is well formed, and the sets of its operations and
fragments have all possible types of the type that they are on. -/
theorem isWellFormed_of_compile
    (hcompile : Document.compile schema options filePath source = .ok document) :
    (∀ set, document.HasSet set → set.IsWellFormed schema document) ∧
      ∀ type set, document.HasRoot type set → set.possibleTypes = schema.possibleTypes type := by
  have hsound := Document.isSound_of_compile hcompile
  exact ⟨fun set hset => SelectionSet.isWellFormed_of_allFit (hsound.fits set hset), hsound.roots⟩

end

def animalsWhen : Source.Document where
  definitions :=
    [.operation
       { description := none
         kind := .query
         name := some "Q"
         variableDefinitions := [⟨none, "c", .nonNull (.named "Boolean"), none, []⟩]
         directives := []
         selections := [.field none "animal" [] [] [.fragmentSpread "OfAnimals" []]] },
     .fragment ⟨none, "OfAnimals", "Animal", [],
       [.field none "name" [] [] [],
        .inlineFragment (some "Dog") [] [.field none "friend" [] [] [.field none "name" [] [] []]],
        .fragmentSpread "OfCats" [⟨"include", [⟨"if", .var "c"⟩]⟩]]⟩,
     .fragment ⟨none, "OfCats", "Cat", [],
       [.field none "prey" [] [] [.field none "name" [] [] []]]⟩]

theorem exists_fragment_animalsWhen :
    ∃ document fragment, Document.compile Schema.animals {} none animalsWhen = .ok document ∧
      document.fragment? "OfAnimals" = some fragment ∧
      fragment.selectionSet.selections.length = 3 := by
  obtain ⟨document, hcompile⟩ : ∃ document,
      Document.compile Schema.animals {} none animalsWhen = .ok document :=
    Outcome.exists_eq_ok (by decide +kernel)
  have hlength : ((Document.compile Schema.animals {} none animalsWhen).toOption.bind
      fun document => (document.fragment? "OfAnimals").map (·.selectionSet.selections.length)) =
        some 3 := by decide +kernel
  rw [hcompile] at hlength
  obtain ⟨fragment, hfragment, hlength⟩ := Option.map_eq_some_iff.mp hlength
  exact ⟨document, fragment, hcompile, hfragment, hlength⟩

theorem isWellFormed_of_compile_animalsWhen :
    ∃ document fragment, Document.compile Schema.animals {} none animalsWhen = .ok document ∧
      document.fragment? "OfAnimals" = some fragment ∧
      fragment.selectionSet.selections.length = 3 ∧
      fragment.selectionSet.IsWellFormed Schema.animals document ∧
      ∀ selection ∈ fragment.selectionSet.selections, ∀ inner,
        selection.selectionSet? = some inner → inner.IsWellFormed Schema.animals document := by
  obtain ⟨document, fragment, hcompile, hfragment, hlength⟩ := exists_fragment_animalsWhen
  obtain ⟨hwellFormed, _⟩ := isWellFormed_of_compile hcompile
  have hset := Document.hasSet_of_fragment? hfragment
  exact ⟨document, fragment, hcompile, hfragment, hlength, hwellFormed _ hset,
    fun selection hselection inner hinner => hwellFormed _ (hset.inner hselection hinner)⟩

end QueryShape.Typed
