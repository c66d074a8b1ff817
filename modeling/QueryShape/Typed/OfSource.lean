import QueryShape.Schema.Basic
import QueryShape.Source.Literal
import QueryShape.Source.Printer
import QueryShape.Text.Quoted
import QueryShape.Typed.Basic

/-!
# Typing documents

The typed form of a document against a schema. Fields get the types, descriptions and deprecations
of their definitions. Inline fragments become type conditions with narrowed possible types, and so
do spreads of fragments that match only some of the possible types. The directives `@skip` and
`@include` are decided at once if their argument is a literal, and become checks if it is a
variable.
-/

set_option autoImplicit false

namespace QueryShape.Typed

/-- The value of the first argument of the given name. -/
def argumentValue? (directive : Source.Directive) (name : String) : Option Source.Value :=
  (directive.arguments.find? (·.name == name)).map (·.value)

def literalKind : Source.Value → String
  | .var _ => "VariableNode"
  | .int _ => "IntValueNode"
  | .float _ => "FloatValueNode"
  | .string _ _ => "StringValueNode"
  | .boolean _ => "BooleanValueNode"
  | .null => "NullValueNode"
  | .enum _ => "EnumValueNode"
  | .list _ => "ListValueNode"
  | .object _ => "ObjectValueNode"

/-- Why a document cannot be typed. Valid documents give rise to the first two only, unless a schema
has its own idea of the condition directives. -/
inductive TypingError where
  | anonymousOperation (printed : String)
  | missingRootType (kind : Source.OperationKind)
  | malformedCondition (directive : Source.Directive)
  | unknownField (parent name : String)
  | unknownFragment (name : String)
  deriving Repr

/-- The text of the error. A name that is looked up in vain is quoted, with nothing said of it. -/
def TypingError.message : TypingError → String
  | anonymousOperation printed =>
    "Operations must be named, since their name identifies them in the compiled output. " ++
      "Found an anonymous operation: " ++ printed
  | missingRootType kind =>
    "The schema does not define a root type for " ++ kind.keyword ++ " operations."
  | malformedCondition directive =>
    "Directive @" ++ directive.name ++ " passed validation with an unexpected argument: " ++
      ((argumentValue? directive "if").map literalKind).getD "None"
  | unknownField _ name => Text.quoted name
  | unknownFragment name => Text.quoted name

/-- For the directives that decide about a selection: whether they do so by the negated condition.
-/
def conditionPolarity? (directive : String) : Option Bool :=
  if directive = "skip" then some true
  else if directive = "include" then some false
  else none

/-- A selection under its directives: nothing if a literal excludes it, else one check around the
other for each variable, the last directive outermost. -/
def underDirectives (types : List String) :
    List Source.Directive → Selection → Except TypingError (Option Selection)
  | [], selection => .ok (some selection)
  | directive :: rest, selection =>
    match conditionPolarity? directive.name with
    | none => underDirectives types rest selection
    | some inverted =>
      match argumentValue? directive "if" with
      | some (.boolean value) =>
        if value = inverted then .ok none else underDirectives types rest selection
      | some (.var name) =>
        underDirectives types rest (.booleanCondition ⟨name, inverted⟩ types [selection])
      | _ => .error (.malformedCondition directive)

def FieldHead.ofDefinition (definition : Schema.Field) (aliasName : Option String) (name : String)
    (arguments : List Source.Argument) : FieldHead where
  responseKey := aliasName.getD name
  name := name
  aliasName := aliasName
  type := definition.type
  args := arguments.map fun argument => ⟨argument.name, argument.value.toData⟩
  description := definition.description
  isDeprecated := definition.deprecationReason.isSome
  deprecationReason := definition.deprecationReason
  isConditional := false
  conditions := []

/-- A spread within the given types; if it matches only some of them, it stands under a condition.
-/
def spreadWithin (schema : Schema) (types : List String) (name fragmentType : String) : Selection :=
  let narrowed := PossibleTypes.intersect types (schema.possibleTypes fragmentType)
  if narrowed.length = types.length then .fragmentSpread name
  else .typeCondition fragmentType narrowed [.fragmentSpread name]

section

variable (schema : Schema) (fragmentType? : String → Option String)

mutual

/-- Types a selection on the parent type, whose selection set has the given possible types. -/
def Selection.ofSource (parent : String) (types : List String) :
    Source.Selection → Except TypingError Selection
  | .field aliasName name arguments _ selections =>
    match schema.field? parent name with
    | none => .error (.unknownField parent name)
    | some definition => do
      let head := FieldHead.ofDefinition definition aliasName name arguments
      let inner := definition.type.innermost
      if schema.isComposite inner then
        let innerTypes := schema.possibleTypes inner
        return .composite head innerTypes (← Selection.allOfSource inner innerTypes [] selections)
      else return .leaf head
  | .fragmentSpread name _ =>
    match fragmentType? name with
    | none => .error (.unknownFragment name)
    | some type => .ok (spreadWithin schema types name type)
  | .inlineFragment condition _ selections => do
    let type := condition.getD parent
    let narrowed := PossibleTypes.intersect types (schema.possibleTypes type)
    return .typeCondition type narrowed (← Selection.allOfSource type narrowed [] selections)

/-- Types the selections of a set, of which spreads of the named fragments came before. Only the
first spread of a fragment counts. -/
def Selection.allOfSource (parent : String) (types : List String) (spread : List String) :
    List Source.Selection → Except TypingError (List Selection)
  | [] => .ok []
  | selection :: rest =>
    match selection with
    | .fragmentSpread name _ =>
      if name ∈ spread then Selection.allOfSource parent types spread rest
      else do
        let typed ← Selection.ofSource parent types selection
        let kept ← underDirectives types selection.directives typed
        return kept.toList ++ (← Selection.allOfSource parent types (name :: spread) rest)
    | _ => do
      let typed ← Selection.ofSource parent types selection
      let kept ← underDirectives types selection.directives typed
      return kept.toList ++ (← Selection.allOfSource parent types spread rest)

end

def SelectionSet.ofSource (parent : String) (selections : List Source.Selection) :
    Except TypingError SelectionSet := do
  let types := schema.possibleTypes parent
  return ⟨types, ← Selection.allOfSource schema fragmentType? parent types [] selections⟩

def Fragment.ofSource (filePath : Option String) (fragment : Source.Fragment) :
    Except TypingError Fragment := do
  return {
    filePath
    name := fragment.name
    source := fragment.print
    type := fragment.typeCondition
    selectionSet :=
      ← SelectionSet.ofSource schema fragmentType? fragment.typeCondition fragment.selections }

def Operation.ofSource (filePath : Option String) (operation : Source.Operation) :
    Except TypingError Operation :=
  match operation.name with
  | none => .error (.anonymousOperation operation.print)
  | some name =>
    match schema.rootType? operation.kind with
    | none => .error (.missingRootType operation.kind)
    | some rootType => do
      return {
        filePath
        name
        kind := operation.kind
        rootType
        variableTypes :=
          operation.variableDefinitions.map fun definition => ⟨definition.name, definition.type⟩
        source := operation.print
        selectionSet :=
          ← SelectionSet.ofSource schema fragmentType? rootType operation.selections }

end

end QueryShape.Typed
