import QueryShape.Schema.Introspection
import QueryShape.Schema.Literal

/-!
# Schemas from definitions

A schema is built from a document of definitions; extensions add to them. The introspection types,
`String` and `Boolean` belong to every schema, the other specified scalars only where a definition
refers to them. Root types are those that a schema definition and its extensions name; without a
schema definition, the types called `Query`, `Mutation` and `Subscription` come before those of
extensions.
-/

set_option autoImplicit false

namespace QueryShape.Schema

open Source (OperationKind Document)

def generalDeprecationReason : String := "No longer supported"

/-- The reason of a deprecation: the one given, or a general one if none is given; what has null as
its reason is not deprecated. -/
def deprecationReason? (directives : List Source.Directive) : Option String :=
  match directives.find? (·.name == "deprecated") with
  | none => none
  | some directive =>
    match directive.arguments.find? (·.name == "reason") with
    | some ⟨_, .string text _⟩ => some text
    | some ⟨_, .null⟩ => none
    | _ => some generalDeprecationReason

def InputValue.ofDefinition (definition : Source.InputValueDefinition) : InputValue where
  name := definition.name
  type := definition.type
  defaultLiteral := definition.defaultValue
  deprecationReason := deprecationReason? definition.directives

def Field.ofDefinition (definition : Source.FieldDefinition) : Field where
  name := definition.name
  description := definition.description.map (·.text)
  type := definition.type
  arguments := definition.arguments.map InputValue.ofDefinition
  deprecationReason := deprecationReason? definition.directives

def TypeBody.ofDefinition (directives : List Source.Directive) : Source.TypeBody → TypeBody
  | .scalar => .scalar
  | .object interfaces fields => .object interfaces (fields.map Field.ofDefinition)
  | .interface interfaces fields => .interface interfaces (fields.map Field.ofDefinition)
  | .union members => .union members
  | .enum values => .enum (values.map (·.name))
  | .inputObject fields =>
    .inputObject (fields.map InputValue.ofDefinition) (directives.any (·.name == "oneOf"))

def NamedType.ofDefinition (definition : Source.TypeDefinition) : NamedType where
  name := definition.name
  body := .ofDefinition definition.directives definition.body

def Directive.ofDefinition (definition : Source.DirectiveDefinition) : Directive where
  name := definition.name
  arguments := definition.arguments.map InputValue.ofDefinition
  isRepeatable := definition.isRepeatable
  locations := definition.locations

def TypeBody.extended : TypeBody → TypeBody → TypeBody
  | .object interfaces fields, .object moreInterfaces moreFields =>
    .object (interfaces ++ moreInterfaces) (fields ++ moreFields)
  | .interface interfaces fields, .interface moreInterfaces moreFields =>
    .interface (interfaces ++ moreInterfaces) (fields ++ moreFields)
  | .union members, .union more => .union (members ++ more)
  | .enum values, .enum more => .enum (values ++ more)
  | .inputObject fields isOneOf, .inputObject more _ => .inputObject (fields ++ more) isOneOf
  | body, _ => body

def NamedType.extended (type : NamedType) (extensions : List NamedType) : NamedType :=
  { type with
    body := (extensions.filter (·.name == type.name)).foldl
      (fun body extension => body.extended extension.body) type.body }

def TypeBody.references (body : TypeBody) : List String :=
  (body.fields.flatMap fun field =>
    field.type.innermost :: field.arguments.map (·.type.innermost)) ++
  body.inputFields.map (·.type.innermost)

def requiredArgument (name typeName : String) : InputValue where
  name := name
  type := .nonNull (.named typeName)
  defaultLiteral := none
  deprecationReason := none

def conditionDirective (name : String) : Directive where
  name := name
  arguments := [requiredArgument "if" "Boolean"]
  isRepeatable := false
  locations := ["FIELD", "FRAGMENT_SPREAD", "INLINE_FRAGMENT"]

def specifiedDirectives : List Directive :=
  [conditionDirective "include",
   conditionDirective "skip",
   { name := "deprecated"
     arguments :=
       [{ name := "reason"
          type := .named "String"
          defaultLiteral := some (.string generalDeprecationReason false)
          deprecationReason := none }]
     isRepeatable := false
     locations :=
       ["FIELD_DEFINITION", "ARGUMENT_DEFINITION", "INPUT_FIELD_DEFINITION", "ENUM_VALUE"] },
   { name := "specifiedBy"
     arguments := [requiredArgument "url" "String"]
     isRepeatable := false
     locations := ["SCALAR"] },
   { name := "oneOf", arguments := [], isRepeatable := false, locations := ["INPUT_OBJECT"] }]

/-- The types that exist without being defined; definitions of their names are set aside. -/
def standardTypes : List String :=
  specifiedScalars ++ Introspection.types.map (·.name)

/-- Builds the schema that a document defines, with its defaults as they are written. -/
def ofDocument (document : Document) : Schema :=
  let extensions := document.typeExtensions.map NamedType.ofDefinition
  let written := document.types.map fun definition =>
    (NamedType.ofDefinition definition).extended extensions
  let own := written.filter fun type => !standardTypes.contains type.name
  let ownDirectives := document.directives.map Directive.ofDefinition
  let directives := ownDirectives ++ specifiedDirectives.filter fun directive =>
    !(ownDirectives.map (·.name)).contains directive.name
  let referenced := "String" :: "Boolean" :: written.map (·.name) ++
    own.flatMap (·.body.references) ++
    directives.flatMap fun directive => directive.arguments.map (·.type.innermost)
  let scalars := (specifiedScalars.filter referenced.contains).map (NamedType.mk · .scalar)
  let roots := (document.schemas ++ document.schemaExtensions).flatMap (·.roots)
  let root (kind : OperationKind) (usualName : String) : Option String :=
    if document.schemas.isEmpty && (own.map (·.name)).contains usualName then some usualName
    else (roots.find? (·.1 == kind)).map (·.2)
  { types := own ++ scalars ++ Introspection.types
    directives
    queryType := root .query "Query"
    mutationType := root .mutation "Mutation"
    subscriptionType := root .subscription "Subscription" }

end QueryShape.Schema
