import QueryShape.Distinct
import QueryShape.Schema.OfDefinitions
import QueryShape.Validity.Site
import QueryShape.Walk

/-!
# Definitions of a schema

The rules that a document of definitions follows if a schema can be built from it: names are unique
and refer to types and directives of the right kinds, extensions fit what they extend, and
directives are used as they are declared. Operations and fragments among the definitions have no
part in the schema, but what they name has to be defined as well. What is left for the types of a
finished schema is in `QueryShape.Validity.Types`.
-/

set_option autoImplicit false

namespace QueryShape.Validity

open Source (Document TypeDefinition FieldDefinition InputValueDefinition Value)

inductive DefinitionRule where
  | loneSchemaDefinition
  | uniqueRootTypes
  | uniqueTypeNames
  | uniqueMemberNames
  | uniqueArgumentNames
  | uniqueDirectiveNames
  | knownReferences
  | knownDirectives
  | uniqueDirectives
  | possibleExtensions
  | knownArguments
  | uniqueArguments
  | uniqueInputFields
  | requiredArguments
  | fittingReferences
  | acyclicDefaults
  deriving DecidableEq, Repr

namespace DefinitionRule

def all : List DefinitionRule :=
  [loneSchemaDefinition, uniqueRootTypes, uniqueTypeNames, uniqueMemberNames, uniqueArgumentNames,
   uniqueDirectiveNames, knownReferences, knownDirectives, uniqueDirectives, possibleExtensions,
   knownArguments, uniqueArguments, uniqueInputFields, requiredArguments, fittingReferences,
   acyclicDefaults]

end DefinitionRule

/-- The kind of place at the head of a type, which tells the kinds of types apart. -/
def typeLocation : Source.TypeBody → String
  | .scalar => "SCALAR"
  | .object _ _ => "OBJECT"
  | .interface _ _ => "INTERFACE"
  | .union _ => "UNION"
  | .enum _ => "ENUM"
  | .inputObject _ => "INPUT_OBJECT"

def definedFieldsOf : Source.TypeBody → List FieldDefinition
  | .object _ fields | .interface _ fields => fields
  | _ => []

def memberNames : Source.TypeBody → List String
  | .object _ fields | .interface _ fields => fields.map (·.name)
  | .enum values => values.map (·.name)
  | .inputObject fields => fields.map (·.name)
  | .scalar | .union _ => []

def valueReferences (values : List InputValueDefinition) : List String :=
  values.map (·.type.innermost)

def fieldReferences (fields : List FieldDefinition) : List String :=
  fields.flatMap fun field => field.type.innermost :: valueReferences field.arguments

def typeReferences : Source.TypeBody → List String
  | .object interfaces fields | .interface interfaces fields => interfaces ++ fieldReferences fields
  | .union members => members
  | .inputObject fields => valueReferences fields
  | .scalar | .enum _ => []

def valuePlaces (location : String) (values : List InputValueDefinition) : List DirectivePlace :=
  values.map fun value => ⟨location, value.directives⟩

def fieldPlaces (fields : List FieldDefinition) : List DirectivePlace :=
  fields.flatMap fun field =>
    ⟨"FIELD_DEFINITION", field.directives⟩ :: valuePlaces "ARGUMENT_DEFINITION" field.arguments

def memberPlaces : Source.TypeBody → List DirectivePlace
  | .object _ fields | .interface _ fields => fieldPlaces fields
  | .enum values => values.map fun value => ⟨"ENUM_VALUE", value.directives⟩
  | .inputObject fields => valuePlaces "INPUT_FIELD_DEFINITION" fields
  | .scalar | .union _ => []

section

variable (schema : Schema) (document : Document)

def typeParts : List TypeDefinition :=
  document.types ++ document.typeExtensions

/-- For every type that is defined or extended, all its parts. -/
def partsByName : List (List TypeDefinition) :=
  (distinct ((typeParts document).map (·.name))).map fun name =>
    (typeParts document).filter (·.name == name)

def namedRoots : List (Source.OperationKind × String) :=
  (document.schemas ++ document.schemaExtensions).flatMap (·.roots)

def schemaDirectives : List Source.Directive :=
  (document.schemas ++ document.schemaExtensions).flatMap (·.directives)

def innerPlaces : List DirectivePlace :=
  (typeParts document).flatMap (memberPlaces ·.body) ++
    document.directives.flatMap fun directive =>
      valuePlaces "ARGUMENT_DEFINITION" directive.arguments

def definitionPlaces : List DirectivePlace :=
  ⟨"SCHEMA", schemaDirectives document⟩ ::
    (typeParts document).map (fun part => ⟨typeLocation part.body, part.directives⟩) ++
    innerPlaces document

/-- The directives of which none may be repeated if it is not repeatable: those of the schema, those
of each type with its extensions, and those of each member. -/
def directiveGroups : List (List Source.Directive) :=
  schemaDirectives document ::
    (partsByName document).map (fun parts => parts.flatMap (·.directives)) ++
    (innerPlaces document).map (·.directives)

def references : List String :=
  (namedRoots document).map (·.2) ++ (typeParts document).flatMap (typeReferences ·.body) ++
    document.directives.flatMap (valueReferences ·.arguments)

def defaults : List Value :=
  let values := (typeParts document).flatMap fun part =>
    (match part.body with
      | .inputObject fields => fields
      | _ => []) ++ (definedFieldsOf part.body).flatMap (·.arguments)
  (values ++ document.directives.flatMap (·.arguments)).filterMap (·.defaultValue)

def documentReferences : List String :=
  (variableDefinitions document).map (·.type.innermost) ++ typeConditions schema document

def documentPlaces : List DirectivePlace :=
  (parts schema document).flatMap (·.places)

def directiveCalls : List Call :=
  (definitionPlaces document ++ documentPlaces schema document).flatMap (·.calls schema)

def referencesFit (body : Schema.TypeBody) : Bool :=
  let isInput (value : Schema.InputValue) : Bool :=
    schema.typeIs Schema.TypeBody.isInput value.type.innermost
  (body.fields.all fun field =>
    !schema.typeIs (· matches .inputObject _ _) field.type.innermost &&
      field.arguments.all isInput) &&
  body.inputFields.all isInput &&
  body.interfaces.all (schema.typeIs (· matches .interface _ _)) &&
  match body with
  | .union members => members.all (schema.typeIs Schema.TypeBody.isObject)
  | _ => true

mutual

def objectTypes (type : TypeRef) : Value → List String
  | .list items =>
    match type.nullable with
    | .list item => allObjectTypes item items
    | _ => []
  | .object given =>
    match schema.body? type.innermost with
    | some (.inputObject fields _) => type.innermost :: entryObjectTypes fields given
    | _ => []
  | _ => []

def allObjectTypes (item : TypeRef) : List Value → List String
  | [] => []
  | value :: rest => objectTypes item value ++ allObjectTypes item rest

def entryObjectTypes (fields : List Schema.InputValue) : List (String × Value) → List String
  | [] => []
  | (name, value) :: rest =>
    (match fields.find? (·.name == name) with
      | some field => objectTypes field.type value
      | none => []) ++
    entryObjectTypes fields rest

end

def defaultTypes (name : String) : List String :=
  ((schema.body? name).map (·.inputFields)).getD [] |>.flatMap fun field =>
    field.defaultLiteral.elim [] (objectTypes schema field.type)

def definitionsFollow : DefinitionRule → Bool
  | .loneSchemaDefinition => decide (document.schemas.length ≤ 1)
  | .uniqueRootTypes => decide ((namedRoots document).map (·.1)).Nodup
  | .uniqueTypeNames => decide (document.types.map (·.name)).Nodup
  | .uniqueMemberNames =>
    (partsByName document).all fun parts =>
      decide (parts.flatMap (memberNames ·.body)).Nodup
  | .uniqueArgumentNames =>
    ((typeParts document).all fun part => (definedFieldsOf part.body).all fun field =>
      decide (field.arguments.map (·.name)).Nodup) &&
    document.directives.all fun directive => decide (directive.arguments.map (·.name)).Nodup
  | .uniqueDirectiveNames => decide (document.directives.map (·.name)).Nodup
  | .knownReferences =>
    let defined := document.types.map (·.name)
    (references document).all (defined ++ Schema.standardTypes).contains &&
      (documentReferences schema document).all defined.contains
  | .knownDirectives =>
    (definitionPlaces document ++ documentPlaces schema document).all (directivesKnown schema)
  | .uniqueDirectives =>
    (directiveGroups document ++ (documentPlaces schema document).map (·.directives)).all
      (directivesUnique schema)
  | .possibleExtensions =>
    document.typeExtensions.all fun extension =>
      document.types.any fun type =>
        type.name == extension.name && typeLocation type.body == typeLocation extension.body
  | .knownArguments => (directiveCalls schema document).all argumentsKnown
  | .uniqueArguments =>
    (directiveCalls schema document).all argumentsUnique &&
      (parts schema document).all fun part => part.calls.all argumentsUnique
  | .uniqueInputFields =>
    (directiveCalls schema document).all argumentFieldsUnique &&
      ((parts schema document).all fun part => part.calls.all argumentFieldsUnique) &&
      (defaults document ++ (variableDefinitions document).filterMap (·.defaultValue)).all
        hasUniqueFields
  | .requiredArguments => (directiveCalls schema document).all argumentsGiven
  | .fittingReferences =>
    (schema.types.all fun type => referencesFit schema type.body) &&
      schema.directives.all fun directive => directive.arguments.all fun argument =>
        schema.typeIs Schema.TypeBody.isInput argument.type.innermost
  | .acyclicDefaults => Walk.isAcyclic (defaultTypes schema) (schema.types.map (·.name))

def definitionsValid : Bool :=
  DefinitionRule.all.all (definitionsFollow schema document)

/-- Whether the first directive of a name, if there is one, is given an argument of some form. -/
def firstGives (name argument : String) (property : Option Value → Bool)
    (place : DirectivePlace) : Bool :=
  (place.directives.find? (·.name == name)).all fun directive =>
    property ((directive.arguments.find? (·.name == argument)).map (·.value))

/-- Whether the reasons of deprecations are texts or null, and scalars are specified by texts.
Definitions of types that exist anyway are not asked. -/
def reasonsFit : Bool :=
  let types := document.types.filter fun type => !Schema.standardTypes.contains type.name
  let isReason : Option Value → Bool := fun
    | none | some .null | some (.string _ _) => true
    | _ => false
  let isText : Option Value → Bool := fun
    | some (.string _ _) => true
    | _ => false
  (innerPlaces document).all (firstGives "deprecated" "reason" isReason) &&
    (types.filter (·.body matches .scalar)).all fun type =>
      firstGives "specifiedBy" "url" isText ⟨"SCALAR", type.directives⟩

end

end QueryShape.Validity
