import QueryShape.Validity.Call

/-!
# Sites

Rules about documents are stated over its sites: the selections of an operation or fragment, at
every depth, each with the composite type that it is made on. The type is not known where a
selection lies below a field that the schema does not define, or below a root type that it lacks.
-/

set_option autoImplicit false

namespace QueryShape.Validity

open Source (Selection Argument Directive Operation Fragment)

structure FieldSite where
  parent : Option String
  definition : Option Schema.Field
  responseKey : String
  name : String
  arguments : List Argument
  directives : List Directive
  selections : List Selection

structure SpreadSite where
  parent : Option String
  name : String
  directives : List Directive

structure InlineSite where
  parent : Option String
  typeCondition : Option String
  directives : List Directive

inductive Site where
  | field (site : FieldSite)
  | spread (site : SpreadSite)
  | inline (site : InlineSite)

section

variable (schema : Schema)

def composite? (name : String) : Option String :=
  if schema.isComposite name then some name else none

def fieldSite (parent aliasName : Option String) (name : String) (arguments : List Argument)
    (directives : List Directive) (selections : List Selection) : FieldSite where
  parent := parent
  definition := parent.bind (schema.field? · name)
  responseKey := aliasName.getD name
  name := name
  arguments := arguments
  directives := directives
  selections := selections

def FieldSite.innerParent (site : FieldSite) : Option String :=
  site.definition.bind fun definition => composite? schema definition.type.innermost

def conditionParent (parent : Option String) : Option String → Option String
  | none => parent
  | some condition => composite? schema condition

mutual

/-- A selection and all selections below it, each before those below it. -/
def selectionSites (parent : Option String) : Selection → List Site
  | .field aliasName name arguments directives selections =>
    let site := fieldSite schema parent aliasName name arguments directives selections
    .field site :: allSites (site.innerParent schema) selections
  | .fragmentSpread name directives => [.spread { parent, name, directives }]
  | .inlineFragment condition directives selections =>
    .inline { parent, typeCondition := condition, directives } ::
      allSites (conditionParent schema parent condition) selections

def allSites (parent : Option String) : List Selection → List Site
  | [] => []
  | selection :: rest => selectionSites parent selection ++ allSites parent rest

end

def operationParent (operation : Operation) : Option String :=
  (schema.rootType? operation.kind).bind fun name =>
    if schema.typeIs Schema.TypeBody.isObject name then some name else none

def fragmentParent (fragment : Fragment) : Option String :=
  composite? schema fragment.typeCondition

def operationSites (operation : Operation) : List Site :=
  allSites schema (operationParent schema operation) operation.selections

def fragmentSites (fragment : Fragment) : List Site :=
  allSites schema (fragmentParent schema fragment) fragment.selections

end

def fieldSites (sites : List Site) : List FieldSite :=
  sites.filterMap fun
    | .field site => some site
    | _ => none

def spreadSites (sites : List Site) : List SpreadSite :=
  sites.filterMap fun
    | .spread site => some site
    | _ => none

def inlineSites (sites : List Site) : List InlineSite :=
  sites.filterMap fun
    | .inline site => some site
    | _ => none

def spreadNames (sites : List Site) : List String :=
  (spreadSites sites).map (·.name)

def Site.directivePlace : Site → DirectivePlace
  | .field site => ⟨"FIELD", site.directives⟩
  | .spread site => ⟨"FRAGMENT_SPREAD", site.directives⟩
  | .inline site => ⟨"INLINE_FRAGMENT", site.directives⟩

def operationLocation : Source.OperationKind → String
  | .query => "QUERY"
  | .mutation => "MUTATION"
  | .subscription => "SUBSCRIPTION"

def headPlaces (operation : Operation) : List DirectivePlace :=
  ⟨operationLocation operation.kind, operation.directives⟩ ::
    operation.variableDefinitions.map fun definition =>
      ⟨"VARIABLE_DEFINITION", definition.directives⟩

def FieldSite.call (site : FieldSite) : Call where
  given := site.arguments
  declared := site.definition.map (·.arguments)

def calls (schema : Schema) (sites : List Site) (places : List DirectivePlace) : List Call :=
  (fieldSites sites).map FieldSite.call ++ places.flatMap (·.calls schema)

/-- An operation or a fragment with its sites and its calls. -/
structure Part where
  sites : List Site
  places : List DirectivePlace
  calls : List Call

def Part.ofOperation (schema : Schema) (operation : Operation) : Part :=
  let sites := operationSites schema operation
  let places := headPlaces operation ++ sites.map Site.directivePlace
  { sites, places, calls := Validity.calls schema sites places }

def Part.ofFragment (schema : Schema) (fragment : Fragment) : Part :=
  let sites := fragmentSites schema fragment
  let places := ⟨"FRAGMENT_DEFINITION", fragment.directives⟩ :: sites.map Site.directivePlace
  { sites, places, calls := Validity.calls schema sites places }

section

variable (schema : Schema) (document : Source.Document)

def parts : List Part :=
  document.operations.map (Part.ofOperation schema) ++
    document.fragments.map (Part.ofFragment schema)

def variableDefinitions : List Source.VariableDefinition :=
  document.operations.flatMap (·.variableDefinitions)

def typeConditions : List String :=
  document.fragments.map (·.typeCondition) ++
    (parts schema document).flatMap fun part =>
      (inlineSites part.sites).filterMap (·.typeCondition)

end

end QueryShape.Validity
