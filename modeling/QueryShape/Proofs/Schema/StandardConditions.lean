import QueryShape.Proofs.Schema.OutputTypes

/-!
# Standard condition directives

A schema that does not declare `@skip` and `@include` itself has them as they are specified: with a
boolean argument that has to be given.
-/

set_option autoImplicit false

namespace QueryShape.Schema

/-- The directives that decide about selections are the specified ones, and the types of their
arguments and of `__typename` are the specified scalars. -/
structure HasStandardConditions (schema : Schema) : Prop where
  directive : ∀ name ∈ ["skip", "include"],
    schema.directive? name = some (conditionDirective name)
  scalar : ∀ name ∈ ["String", "Boolean"], schema.body? name = some .scalar

variable {schema : Schema}

theorem HasStandardConditions.isComposite_string (h : schema.HasStandardConditions) :
    schema.isComposite "String" = false :=
  isComposite_of_scalar (h.scalar "String" (by decide))

theorem directive?_mapInputValues (f : InputValue → InputValue) (name : String) :
    (schema.mapInputValues f).directive? name =
      (schema.directive? name).map fun directive =>
        { directive with arguments := directive.arguments.map f } := by
  rw [directive?, mapInputValues, List.find?_map]
  rfl

variable {document : Source.Document}

theorem directive?_ofDocument {name : String} (hname : name ∈ ["skip", "include"])
    (hown : ∀ directive ∈ document.directives, directive.name ≠ name) :
    (ofDocument document).directive? name = some (conditionDirective name) := by
  have hnone : (document.directives.map Directive.ofDefinition).find? (·.name == name) = none := by
    simpa [Directive.ofDefinition] using hown
  rw [directive?, ofDocument, List.find?_append, hnone, Option.none_or, List.find?_filter]
  rcases List.mem_pair.mp hname with rfl | rfl
  · simpa [specifiedDirectives, conditionDirective, Directive.ofDefinition] using hown
  · simpa [specifiedDirectives, conditionDirective, Directive.ofDefinition] using hown

/-- A schema that is read has the standard conditions unless it declares others. -/
theorem hasStandardConditions_of_parse {text : String}
    (hdocument : Source.Document.parse text = .ok document) (h : Schema.parse text = .ok schema)
    (hown : ∀ directive ∈ document.directives, directive.name ∉ ["skip", "include"]) :
    schema.HasStandardConditions where
  directive name hname := by
    simp only [Schema.parse, hdocument, Outcome.bind_eq_ok, Outcome.guard_eq_ok,
      Outcome.pure_eq_ok, Outcome.mapError_eq_ok, Except.ok.injEq] at h
    obtain ⟨_, rfl, _, _, rfl⟩ := h
    rw [settled, settledWithin, directive?_mapInputValues,
      directive?_ofDocument hname fun directive hdirective heq =>
        hown directive hdirective (heq ▸ hname)]
    rfl
  scalar _ hname := body?_scalar_of_parse h hname

end QueryShape.Schema
