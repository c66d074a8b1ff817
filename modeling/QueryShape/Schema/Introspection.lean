import QueryShape.Schema.Basic

/-!
# Introspection types

The types that describe a schema to its users; every schema has them.
-/

set_option autoImplicit false

namespace QueryShape.Schema.Introspection

def plain (name : String) (type : TypeRef) : Field where
  name := name
  description := none
  type := type
  arguments := []
  deprecationReason := none

def described (name description : String) (type : TypeRef) : Field :=
  { plain name type with description := some description }

def withDeprecated (argumentType : TypeRef) (field : Field) : Field :=
  { field with
    arguments :=
      [{ name := "includeDeprecated"
         type := argumentType
         defaultLiteral := some (.boolean false)
         deprecationReason := none }] }

def string : TypeRef := .named "String"

def boolean : TypeRef := .named "Boolean"

def required (type : TypeRef) : TypeRef := .nonNull type

def listOf (name : String) : TypeRef := .list (.nonNull (.named name))

def schemaFields : List Field :=
  [plain "description" string,
   described "types" "A list of all types supported by this server." (required (listOf "__Type")),
   described "queryType" "The type that query operations will be rooted at."
     (required (.named "__Type")),
   described "mutationType"
     "If this server supports mutation, the type that mutation operations will be rooted at."
     (.named "__Type"),
   described "subscriptionType"
     ("If this server supports subscription, the type that subscription operations will be " ++
       "rooted at.")
     (.named "__Type"),
   withDeprecated (required boolean)
     (described "directives" "A list of all directives supported by this server."
       (required (listOf "__Directive")))]

def typeFields : List Field :=
  [plain "kind" (required (.named "__TypeKind")),
   plain "name" string,
   plain "description" string,
   plain "specifiedByURL" string,
   withDeprecated boolean (plain "fields" (listOf "__Field")),
   plain "interfaces" (listOf "__Type"),
   plain "possibleTypes" (listOf "__Type"),
   withDeprecated boolean (plain "enumValues" (listOf "__EnumValue")),
   withDeprecated boolean (plain "inputFields" (listOf "__InputValue")),
   plain "ofType" (.named "__Type"),
   plain "isOneOf" boolean]

def fieldFields : List Field :=
  [plain "name" (required string),
   plain "description" string,
   withDeprecated boolean (plain "args" (required (listOf "__InputValue"))),
   plain "type" (required (.named "__Type")),
   plain "isDeprecated" (required boolean),
   plain "deprecationReason" string]

def inputValueFields : List Field :=
  [plain "name" (required string),
   plain "description" string,
   plain "type" (required (.named "__Type")),
   described "defaultValue"
     "A GraphQL-formatted string representing the default value for this input value." string,
   plain "isDeprecated" (required boolean),
   plain "deprecationReason" string]

def enumValueFields : List Field :=
  [plain "name" (required string),
   plain "description" string,
   plain "isDeprecated" (required boolean),
   plain "deprecationReason" string]

def directiveFields : List Field :=
  [plain "name" (required string),
   plain "description" string,
   plain "isRepeatable" (required boolean),
   plain "locations" (required (listOf "__DirectiveLocation")),
   withDeprecated boolean (plain "args" (required (listOf "__InputValue"))),
   plain "isDeprecated" (required boolean),
   plain "deprecationReason" string]

def typeKinds : List String :=
  ["SCALAR", "OBJECT", "INTERFACE", "UNION", "ENUM", "INPUT_OBJECT", "LIST", "NON_NULL"]

def directiveLocations : List String :=
  ["QUERY", "MUTATION", "SUBSCRIPTION", "FIELD", "FRAGMENT_DEFINITION", "FRAGMENT_SPREAD",
   "INLINE_FRAGMENT", "VARIABLE_DEFINITION", "SCHEMA", "SCALAR", "OBJECT", "FIELD_DEFINITION",
   "ARGUMENT_DEFINITION", "INTERFACE", "UNION", "ENUM", "ENUM_VALUE", "INPUT_OBJECT",
   "INPUT_FIELD_DEFINITION", "DIRECTIVE_DEFINITION"]

def types : List NamedType :=
  [⟨"__Schema", .object [] schemaFields⟩,
   ⟨"__Type", .object [] typeFields⟩,
   ⟨"__TypeKind", .enum typeKinds⟩,
   ⟨"__Field", .object [] fieldFields⟩,
   ⟨"__InputValue", .object [] inputValueFields⟩,
   ⟨"__EnumValue", .object [] enumValueFields⟩,
   ⟨"__Directive", .object [] directiveFields⟩,
   ⟨"__DirectiveLocation", .enum directiveLocations⟩]

end QueryShape.Schema.Introspection
