import QueryShape.Proofs.Outcome
import QueryShape.Proofs.Typed.Conditions

/-!
# Derivations of typed selections

What a list of selections becomes when it is typed, selection by selection: one that a literal
excludes and one that spreads a fragment again becomes nothing, any other one stands under the
checks that its directives leave to variables.
-/

set_option autoImplicit false

namespace QueryShape.Typed

/-- What selections on a parent type, in a set over the given types, are typed to after spreads of
the fragments seen so far. -/
inductive Typing (schema : Schema) (fragmentType? : String → Option String) :
    String → List String → List String → List Source.Selection → List Selection → Prop
  | nil {parent : String} {types seen : List String} :
      Typing schema fragmentType? parent types seen [] []
  | excluded {parent : String} {types seen : List String} {selection : Source.Selection}
      {rest : List Source.Selection} {others : List Selection}
      (hexcluded : checksOf? selection.directives = none)
      (hrest : Typing schema fragmentType? parent types (selection.seenAfter seen) rest others) :
      Typing schema fragmentType? parent types seen (selection :: rest) others
  | repeated {parent : String} {types seen : List String} {name : String}
      {directives : List Source.Directive} {rest : List Source.Selection} {others : List Selection}
      (hseen : name ∈ seen)
      (hrest : Typing schema fragmentType? parent types seen rest others) :
      Typing schema fragmentType? parent types seen (.fragmentSpread name directives :: rest) others
  | leaf {parent : String} {types seen : List String} {aliasName : Option String} {name : String}
      {arguments : List Source.Argument} {directives : List Source.Directive}
      {inner rest : List Source.Selection} {others : List Selection} {checks : List Check}
      {definition : Schema.Field} (hchecks : checksOf? directives = some checks)
      (hdefinition : schema.field? parent name = some definition)
      (hleaf : schema.isComposite definition.type.innermost = false)
      (hrest : Typing schema fragmentType? parent types seen rest others) :
      Typing schema fragmentType? parent types seen
        (.field aliasName name arguments directives inner :: rest)
        (Selection.under types checks
          (.leaf (FieldHead.ofDefinition definition aliasName name arguments)) :: others)
  | composite {parent : String} {types seen : List String} {aliasName : Option String}
      {name : String} {arguments : List Source.Argument} {directives : List Source.Directive}
      {inner rest : List Source.Selection} {nested others : List Selection} {checks : List Check}
      {definition : Schema.Field} (hchecks : checksOf? directives = some checks)
      (hdefinition : schema.field? parent name = some definition)
      (hcomposite : schema.isComposite definition.type.innermost = true)
      (hinner : Typing schema fragmentType? definition.type.innermost
        (schema.possibleTypes definition.type.innermost) [] inner nested)
      (hrest : Typing schema fragmentType? parent types seen rest others) :
      Typing schema fragmentType? parent types seen
        (.field aliasName name arguments directives inner :: rest)
        (Selection.under types checks
          (.composite (FieldHead.ofDefinition definition aliasName name arguments)
            (schema.possibleTypes definition.type.innermost) nested) :: others)
  | spread {parent : String} {types seen : List String} {name fragmentType : String}
      {directives : List Source.Directive} {rest : List Source.Selection} {others : List Selection}
      {checks : List Check} (hnew : name ∉ seen) (hchecks : checksOf? directives = some checks)
      (hfragment : fragmentType? name = some fragmentType)
      (hrest : Typing schema fragmentType? parent types (seen.insert name) rest others) :
      Typing schema fragmentType? parent types seen (.fragmentSpread name directives :: rest)
        (Selection.under types checks (spreadWithin schema types name fragmentType) :: others)
  | inline {parent : String} {types seen : List String} {condition : Option String}
      {directives : List Source.Directive} {inner rest : List Source.Selection}
      {typed others : List Selection} {checks : List Check}
      (hchecks : checksOf? directives = some checks)
      (hinner : Typing schema fragmentType? (condition.getD parent)
        (PossibleTypes.intersect types (schema.possibleTypes (condition.getD parent))) [] inner
        typed)
      (hrest : Typing schema fragmentType? parent types seen rest others) :
      Typing schema fragmentType? parent types seen
        (.inlineFragment condition directives inner :: rest)
        (Selection.under types checks
          (.typeCondition (condition.getD parent)
            (PossibleTypes.intersect types (schema.possibleTypes (condition.getD parent))) typed) ::
          others)

section

variable {schema : Schema} {fragmentType? : String → Option String}

theorem typing_of_allOfSource {parent : String} {types seen : List String}
    {selections : List Source.Selection} {typed : List Selection}
    (h : Selection.allOfSource schema fragmentType? parent types seen selections = .ok typed) :
    Typing schema fragmentType? parent types seen selections typed := by
  induction selections using Source.Selection.listInduction generalizing parent types seen typed
    with
  | nil =>
    cases h
    exact .nil
  | field aliasName name arguments directives inner rest ihInner ih =>
    simp only [Selection.allOfSource, Source.Selection.directives, Outcome.bind_eq_ok,
      Outcome.pure_eq_ok] at h
    obtain ⟨selection, hselection, kept, hkept, others, hothers, rfl⟩ := h
    have hrest := ih hothers
    rw [eq_of_underDirectives hkept]
    cases hchecks : checksOf? directives with
    | none => exact .excluded hchecks hrest
    | some checks =>
      rw [Selection.ofSource] at hselection
      cases hdefinition : schema.field? parent name with
      | none => simp [hdefinition] at hselection
      | some definition =>
        simp only [hdefinition] at hselection
        split at hselection
        · rename_i hcomposite
          simp only [Outcome.bind_eq_ok, Outcome.pure_eq_ok] at hselection
          obtain ⟨nested, hnested, rfl⟩ := hselection
          exact .composite hchecks hdefinition hcomposite (ihInner hnested) hrest
        · rename_i hleaf
          rw [← Outcome.pure_eq_ok.mp hselection]
          exact .leaf hchecks hdefinition (by simpa using hleaf) hrest
  | fragmentSpread name directives rest ih =>
    rw [Selection.allOfSource] at h
    split at h
    · rename_i hseen
      exact .repeated hseen (ih h)
    · rename_i hnew
      simp only [Source.Selection.directives, Outcome.bind_eq_ok, Outcome.pure_eq_ok] at h
      obtain ⟨selection, hselection, kept, hkept, others, hothers, rfl⟩ := h
      have hrest := ih hothers
      rw [← List.insert_of_not_mem hnew] at hrest
      rw [eq_of_underDirectives hkept]
      cases hchecks : checksOf? directives with
      | none => exact .excluded hchecks hrest
      | some checks =>
        rw [Selection.ofSource] at hselection
        cases hfragment : fragmentType? name with
        | none => simp [hfragment] at hselection
        | some fragmentType =>
          simp only [hfragment] at hselection
          rw [← Except.ok.inj hselection]
          exact .spread hnew hchecks hfragment hrest
  | inlineFragment condition directives inner rest ihInner ih =>
    simp only [Selection.allOfSource, Source.Selection.directives, Outcome.bind_eq_ok,
      Outcome.pure_eq_ok] at h
    obtain ⟨selection, hselection, kept, hkept, others, hothers, rfl⟩ := h
    have hrest := ih hothers
    rw [eq_of_underDirectives hkept]
    cases hchecks : checksOf? directives with
    | none => exact .excluded hchecks hrest
    | some checks =>
      simp only [Selection.ofSource, Outcome.bind_eq_ok, Outcome.pure_eq_ok] at hselection
      obtain ⟨typed, htyped, rfl⟩ := hselection
      exact .inline hchecks (ihInner htyped) hrest

end

end QueryShape.Typed
