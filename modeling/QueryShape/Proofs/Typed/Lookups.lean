import QueryShape.Proofs.Source.Resolved
import QueryShape.Proofs.Typed.Compiled

/-!
# Typing what resolves

Typing looks up fields and fragments by their names and conditions in the arguments of directives.
In a document that resolves all of them are there, so that selections, fragments and operations are
typed. The exception is an operation that is refused, since it is anonymous or lacks a root type.
-/

set_option autoImplicit false

namespace QueryShape.Typed

section

variable {schema : Schema} {fragmentType? : String → Option String} {parent : String}

theorem exists_underDirectives {directives : List Source.Directive}
    (h : ∀ directive ∈ directives, directive.isMalformed = false) (types : List String)
    (selection : Selection) : ∃ kept, underDirectives types directives selection = .ok kept := by
  cases hkept : underDirectives types directives selection with
  | error error => exact absurd hkept (ne_error_of_formed h error)
  | ok kept => exact ⟨kept, rfl⟩

theorem exists_allOfSource_cons {types seen : List String} {selection : Source.Selection}
    {rest : List Source.Selection} {typed : Selection}
    (htyped : Selection.ofSource schema fragmentType? parent types selection = .ok typed)
    (hformed : ∀ directive ∈ selection.directives, directive.isMalformed = false)
    (hrest : ∀ seen, ∃ others,
      Selection.allOfSource schema fragmentType? parent types seen rest = .ok others) :
    ∃ all, Selection.allOfSource schema fragmentType? parent types seen (selection :: rest) =
      .ok all := by
  obtain ⟨kept, hkept⟩ := exists_underDirectives hformed types typed
  cases selection with
  | fragmentSpread name directives =>
    rw [Selection.allOfSource]
    split
    · exact hrest seen
    · obtain ⟨others, hothers⟩ := hrest (name :: seen)
      simp only [htyped, hothers, Outcome.bind_eq_ok, Outcome.pure_eq_ok]
      exact ⟨_, typed, rfl, kept, hkept, others, rfl, rfl⟩
  | _ =>
    obtain ⟨others, hothers⟩ := hrest seen
    simp only [Selection.allOfSource, htyped, hothers, Outcome.bind_eq_ok, Outcome.pure_eq_ok]
    exact ⟨_, typed, rfl, kept, hkept, others, rfl, rfl⟩

theorem exists_allOfSource {selections : List Source.Selection}
    (h : Source.Selection.AllResolve schema fragmentType? parent selections)
    (types seen : List String) :
    ∃ typed, Selection.allOfSource schema fragmentType? parent types seen selections =
      .ok typed := by
  induction selections using Source.Selection.listInduction generalizing parent types seen with
  | nil => exact ⟨[], rfl⟩
  | field aliasName name arguments directives inner rest ihInner ih =>
    obtain ⟨⟨hformed, definition, hdefinition, hinner⟩, hrest⟩ := h
    obtain ⟨typed, htyped⟩ : ∃ typed, Selection.ofSource schema fragmentType? parent types
        (.field aliasName name arguments directives inner) = .ok typed := by
      rw [Selection.ofSource]
      simp only [hdefinition]
      split
      · rename_i hcomposite
        obtain ⟨nested, hnested⟩ := ihInner (hinner hcomposite).2
          (schema.possibleTypes definition.type.innermost) []
        exact ⟨_, Outcome.bind_eq_ok.mpr ⟨nested, hnested, rfl⟩⟩
      · exact ⟨_, rfl⟩
    exact exists_allOfSource_cons htyped hformed (ih hrest types)
  | fragmentSpread name directives rest ih =>
    obtain ⟨⟨hformed, type, htype, _⟩, hrest⟩ := h
    obtain ⟨typed, htyped⟩ : ∃ typed, Selection.ofSource schema fragmentType? parent types
        (.fragmentSpread name directives) = .ok typed := by
      rw [Selection.ofSource]
      simp only [htype]
      exact ⟨_, rfl⟩
    exact exists_allOfSource_cons htyped hformed (ih hrest types)
  | inlineFragment condition directives inner rest ihInner ih =>
    obtain ⟨⟨hformed, _, hinner⟩, hrest⟩ := h
    obtain ⟨nested, hnested⟩ := ihInner hinner
      (PossibleTypes.intersect types (schema.possibleTypes (condition.getD parent))) []
    obtain ⟨typed, htyped⟩ : ∃ typed, Selection.ofSource schema fragmentType? parent types
        (.inlineFragment condition directives inner) = .ok typed := by
      rw [Selection.ofSource]
      exact ⟨_, Outcome.bind_eq_ok.mpr ⟨nested, hnested, rfl⟩⟩
    exact exists_allOfSource_cons htyped hformed (ih hrest types)

theorem exists_selectionSet {selections : List Source.Selection}
    (h : Source.Selection.AllResolve schema fragmentType? parent selections) :
    ∃ set, SelectionSet.ofSource schema fragmentType? parent selections = .ok set := by
  obtain ⟨typed, htyped⟩ := exists_allOfSource h (schema.possibleTypes parent) []
  exact ⟨_, Outcome.bind_eq_ok.mpr ⟨typed, htyped, rfl⟩⟩

end

/-- Why an operation is refused, if it is. -/
def refusal? (schema : Schema) (operation : Source.Operation) : Option TypingError :=
  match operation.name with
  | none => some (.anonymousOperation operation.print)
  | some _ =>
    match schema.rootType? operation.kind with
    | none => some (.missingRootType operation.kind)
    | some _ => none

section

variable {schema : Schema} {filePath : Option String} {operation : Source.Operation}

theorem refusal?_eq_none : refusal? schema operation = none ↔
    ∃ name root, operation.name = some name ∧ schema.rootType? operation.kind = some root := by
  rw [refusal?]
  cases operation.name <;> cases schema.rootType? operation.kind <;> simp

theorem refusal?_eq_some {error : TypingError} :
    refusal? schema operation = some error ↔
      (operation.name = none ∧ error = .anonymousOperation operation.print) ∨
        ∃ name, operation.name = some name ∧ schema.rootType? operation.kind = none ∧
          error = .missingRootType operation.kind := by
  rw [refusal?]
  cases operation.name <;> cases schema.rootType? operation.kind <;> simp [eq_comm]

theorem isSome_refusal? : (refusal? schema operation).isSome = true ↔
    operation.name = none ∨ schema.rootType? operation.kind = none := by
  rw [refusal?]
  cases operation.name <;> cases schema.rootType? operation.kind <;> simp

theorem Operation.ofSource_of_refused {fragmentType? : String → Option String}
    {error : TypingError} (h : refusal? schema operation = some error) :
    Operation.ofSource schema fragmentType? filePath operation = .error error := by
  rcases refusal?_eq_some.mp h with ⟨hname, rfl⟩ | ⟨name, hname, hroot, rfl⟩
  · simp only [Operation.ofSource, hname]
  · simp only [Operation.ofSource, hname, hroot]

end

namespace Document

variable {schema : Schema} {document : Source.Document} (hresolves : document.Resolves schema)
  (filePath : Option String)
include hresolves

theorem exists_fragment {fragment : Source.Fragment} (hmem : fragment ∈ document.fragments) :
    ∃ typed, Fragment.ofSource schema document.fragmentType? filePath fragment = .ok typed := by
  obtain ⟨set, hset⟩ := exists_selectionSet (hresolves.fragment fragment hmem)
  exact ⟨_, Fragment.ofSource_eq_ok.mpr ⟨set, hset, rfl⟩⟩

theorem exists_operation {operation : Source.Operation} (hmem : operation ∈ document.operations)
    (haccepted : refusal? schema operation = none) :
    ∃ typed, Operation.ofSource schema document.fragmentType? filePath operation = .ok typed := by
  obtain ⟨name, root, hname, hroot⟩ := refusal?_eq_none.mp haccepted
  obtain ⟨set, hset⟩ := exists_selectionSet (hresolves.operation operation hmem root hroot)
  exact ⟨_, Operation.ofSource_eq_ok.mpr ⟨name, hname, root, hroot, set, hset, rfl⟩⟩

end Document

end QueryShape.Typed
