import QueryShape.Validity.Fragments
import QueryShape.Validity.Overlap
import QueryShape.Validity.Subscription

/-!
# Validity

A document is valid for a schema if it follows all rules. Each rule is a quantification over the
operations, fragments, sites and calls of the document. Fragments that no operation uses are
allowed.
-/

set_option autoImplicit false

namespace QueryShape.Validity

open Source (Document Operation VariableDefinition)

inductive Rule where
  | executableDefinitions
  | uniqueOperationNames
  | loneAnonymousOperation
  | singleSubscriptionField
  | knownTypeNames
  | fragmentsOnCompositeTypes
  | variablesOfInputTypes
  | leafSelections
  | definedFields
  | uniqueFragmentNames
  | knownFragmentNames
  | possibleSpreads
  | acyclicFragments
  | uniqueVariableNames
  | definedVariables
  | usedVariables
  | knownDirectives
  | uniqueDirectives
  | knownArguments
  | uniqueArguments
  | fittingValues
  | requiredArguments
  | fittingVariables
  | mergeableFields
  | uniqueInputFields
  | shallowIntrospection
  deriving DecidableEq, Repr

namespace Rule

def all : List Rule :=
  [executableDefinitions, uniqueOperationNames, loneAnonymousOperation, singleSubscriptionField,
   knownTypeNames, fragmentsOnCompositeTypes, variablesOfInputTypes, leafSelections, definedFields,
   uniqueFragmentNames, knownFragmentNames, possibleSpreads, acyclicFragments, uniqueVariableNames,
   definedVariables, usedVariables, knownDirectives, uniqueDirectives, knownArguments,
   uniqueArguments, fittingValues, requiredArguments, fittingVariables, mergeableFields,
   uniqueInputFields, shallowIntrospection]

end Rule

section

variable (schema : Schema) (document : Document)

def operationParts (operation : Operation) : List Part :=
  Part.ofOperation schema operation ::
    ((reachedFrom document operation.selections).filterMap document.fragment?).map
      (Part.ofFragment schema)

def operationUsages (operation : Operation) : List Usage :=
  (operationParts schema document operation).flatMap fun part =>
    part.calls.flatMap fun call =>
      call.given.flatMap fun argument =>
        usages schema (.ofArgument (call.declaration? argument.name)) argument.value

def hasNonNullDefault (definition : VariableDefinition) : Bool :=
  match definition.defaultValue with
  | none | some .null => false
  | some _ => true

/-- Whether the selections of a field agree with its type: a leaf has none, and a composite type
needs some. -/
def leafSelected (site : FieldSite) : Bool :=
  match site.definition with
  | none => true
  | some definition =>
    site.selections.isEmpty ==
      schema.typeIs Schema.TypeBody.isLeaf definition.type.innermost

def canSpread (parent : Option String) (type : String) : Bool :=
  match parent with
  | none => true
  | some parent => !schema.isComposite type || schema.overlap type parent

def defaultFits (definition : VariableDefinition) : Bool :=
  definition.defaultValue.all fun value => fits schema (some definition.type) value

def usagesFit (operation : Operation) : Bool :=
  (operationUsages schema document operation).all fun usage =>
    (operation.variableDefinitions.find? (·.name == usage.name)).all fun definition =>
      variableFits definition.type (hasNonNullDefault definition) usage.expectation

def follows : Rule → Bool
  | .executableDefinitions =>
    document.definitions.all fun definition => (definition matches .operation _ | .fragment _)
  | .uniqueOperationNames => decide (document.operations.filterMap (·.name)).Nodup
  | .loneAnonymousOperation =>
    decide (document.operations.length ≤ 1) || document.operations.all (·.name.isSome)
  | .singleSubscriptionField => document.operations.all (hasSingleField schema document)
  | .knownTypeNames =>
    (variableDefinitions document).all (fun definition =>
      (schema.type? definition.type.innermost).isSome) &&
    (typeConditions schema document).all fun name => (schema.type? name).isSome
  | .fragmentsOnCompositeTypes =>
    (typeConditions schema document).all fun name =>
      (schema.body? name).all Schema.TypeBody.isComposite
  | .variablesOfInputTypes =>
    (variableDefinitions document).all fun definition =>
      (schema.body? definition.type.innermost).all Schema.TypeBody.isInput
  | .leafSelections =>
    (parts schema document).all fun part => (fieldSites part.sites).all (leafSelected schema)
  | .definedFields =>
    (parts schema document).all fun part => (fieldSites part.sites).all fun site =>
      site.parent.isNone || site.definition.isSome
  | .uniqueFragmentNames => decide (document.fragments.map (·.name)).Nodup
  | .knownFragmentNames =>
    (parts schema document).all fun part => (spreadNames part.sites).all fun name =>
      (document.fragment? name).isSome
  | .possibleSpreads =>
    (parts schema document).all fun part =>
      ((spreadSites part.sites).all fun site =>
        (document.fragment? site.name).all fun fragment =>
          canSpread schema site.parent fragment.typeCondition) &&
      (inlineSites part.sites).all fun site =>
        site.typeCondition.all (canSpread schema site.parent)
  | .acyclicFragments => fragmentsAcyclic document
  | .uniqueVariableNames =>
    document.operations.all fun operation =>
      decide (operation.variableDefinitions.map (·.name)).Nodup
  | .definedVariables =>
    document.operations.all fun operation =>
      (operationUsages schema document operation).all fun usage =>
        (operation.variableDefinitions.map (·.name)).contains usage.name
  | .usedVariables =>
    document.operations.all fun operation =>
      let used := (operationUsages schema document operation).map (·.name)
      operation.variableDefinitions.all fun definition => used.contains definition.name
  | .knownDirectives =>
    (parts schema document).all fun part => part.places.all (directivesKnown schema)
  | .uniqueDirectives =>
    (parts schema document).all fun part => part.places.all fun place =>
      directivesUnique schema place.directives
  | .knownArguments => (parts schema document).all fun part => part.calls.all argumentsKnown
  | .uniqueArguments =>
    (parts schema document).all fun part => part.calls.all argumentsUnique
  | .fittingValues =>
    ((parts schema document).all fun part => part.calls.all (argumentsFit schema)) &&
      (variableDefinitions document).all (defaultFits schema)
  | .requiredArguments => (parts schema document).all fun part => part.calls.all argumentsGiven
  | .fittingVariables => document.operations.all (usagesFit schema document)
  | .mergeableFields => fieldsMerge schema document
  | .uniqueInputFields =>
    ((parts schema document).all fun part => part.calls.all argumentFieldsUnique) &&
    (variableDefinitions document).all fun definition =>
      definition.defaultValue.all hasUniqueFields
  | .shallowIntrospection =>
    let depths := fragmentDepths document
    (parts schema document).all fun part =>
      (fieldSites part.sites).all (introspectionShallow depths)

/-- Whether the document follows all rules, asked in their order: whether fields can be merged only
matters among fragments that do not spread each other in a cycle. -/
def isValid : Bool :=
  Rule.all.all (follows schema document)

end

end QueryShape.Validity
