import QueryShape.Schema.Basic

/-!
# Selection sets of a document as it is written

Every selection set of a document stands on a type: that of an operation on its root type, that of a
fragment on the type of the fragment, that of a field on the type of the field. It counts as a
selection set of the document even if its directives say that it is never included.
-/

set_option autoImplicit false

namespace QueryShape.Source.Document

/-- The document has the selections, as a whole selection set, on the type. -/
inductive HasSelections (schema : Schema) (document : Document) : String → List Selection → Prop
  | operation {operation : Operation} {root : String} (hoperation : operation ∈ document.operations)
      (hroot : schema.rootType? operation.kind = some root) :
      HasSelections schema document root operation.selections
  | fragment {fragment : Fragment} (hfragment : fragment ∈ document.fragments) :
      HasSelections schema document fragment.typeCondition fragment.selections
  | field {parent : String} {selections : List Selection} {aliasName : Option String}
      {name : String} {arguments : List Argument} {directives : List Directive}
      {inner : List Selection} {definition : Schema.Field}
      (hselections : HasSelections schema document parent selections)
      (hfield : .field aliasName name arguments directives inner ∈ selections)
      (hdefinition : schema.field? parent name = some definition)
      (hcomposite : schema.isComposite definition.type.innermost = true) :
      HasSelections schema document definition.type.innermost inner
  | inlineFragment {parent : String} {selections : List Selection} {condition : Option String}
      {directives : List Directive} {inner : List Selection}
      (hselections : HasSelections schema document parent selections)
      (hinline : .inlineFragment condition directives inner ∈ selections) :
      HasSelections schema document (condition.getD parent) inner

/-- The selections are those of a fragment or of a field of a composite type. -/
inductive HasInner (schema : Schema) (document : Document) : String → List Selection → Prop
  | fragment {fragment : Fragment} (hfragment : fragment ∈ document.fragments) :
      HasInner schema document fragment.typeCondition fragment.selections
  | field {parent : String} {selections : List Selection} {aliasName : Option String}
      {name : String} {arguments : List Argument} {directives : List Directive}
      {inner : List Selection} {definition : Schema.Field}
      (hselections : document.HasSelections schema parent selections)
      (hfield : .field aliasName name arguments directives inner ∈ selections)
      (hdefinition : schema.field? parent name = some definition)
      (hcomposite : schema.isComposite definition.type.innermost = true) :
      HasInner schema document definition.type.innermost inner

theorem HasInner.hasSelections {schema : Schema} {document : Document} {parent : String}
    {selections : List Selection} (h : document.HasInner schema parent selections) :
    document.HasSelections schema parent selections := by
  cases h with
  | fragment hfragment => exact .fragment hfragment
  | field hselections hfield hdefinition hcomposite =>
    exact .field hselections hfield hdefinition hcomposite

/-- A type is that of a variable, or that of a field that is selected anywhere. -/
inductive Mentions (schema : Schema) (document : Document) : String → Prop
  | variableType {operation : Operation} {definition : VariableDefinition}
      (hoperation : operation ∈ document.operations)
      (hdefinition : definition ∈ operation.variableDefinitions) :
      Mentions schema document definition.type.innermost
  | fieldType {parent : String} {selections : List Selection} {aliasName : Option String}
      {name : String} {arguments : List Argument} {directives : List Directive}
      {inner : List Selection} {definition : Schema.Field}
      (hselections : document.HasSelections schema parent selections)
      (hfield : .field aliasName name arguments directives inner ∈ selections)
      (hdefinition : schema.field? parent name = some definition) :
      Mentions schema document definition.type.innermost

/-- The types that code generators have to declare for the document: those that it mentions, and
those of the fields of an input object that is one of them. -/
inductive Uses (schema : Schema) (document : Document) : String → Prop
  | mentioned {name : String} (hmentions : document.Mentions schema name)
      (hdeclared : schema.isDeclared name = true) : Uses schema document name
  | inputField {name : String} {fields : List Schema.InputValue} {isOneOf : Bool}
      {field : Schema.InputValue} (huses : Uses schema document name)
      (hbody : schema.body? name = some (.inputObject fields isOneOf)) (hfield : field ∈ fields)
      (hdeclared : schema.isDeclared field.type.innermost = true) :
      Uses schema document field.type.innermost

end QueryShape.Source.Document
