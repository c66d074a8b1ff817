import QueryShape.TypeRef
import QueryShape.Source.Basic

/-!
# Schemas

A schema has named types, directives and a root type for each kind of operation. This module holds
the types of a schema and the questions asked of it: which object types a composite type may resolve
to, which field a selection refers to, and which types code generators have to declare.
-/

set_option autoImplicit false

namespace QueryShape

namespace Schema

structure InputValue where
  name : String
  type : TypeRef
  /-- A literal that denotes the default. -/
  defaultLiteral : Option Source.Value
  /-- Present on deprecated arguments and fields only. -/
  deprecationReason : Option String
  deriving Repr, Inhabited

def InputValue.hasDefault (value : InputValue) : Bool :=
  value.defaultLiteral.isSome

/-- A value has to be given if null is not allowed and there is no default. -/
def InputValue.isRequired (value : InputValue) : Bool :=
  value.type.isNonNull && !value.hasDefault

structure Field where
  name : String
  description : Option String
  type : TypeRef
  arguments : List InputValue
  /-- Present on deprecated fields only. -/
  deprecationReason : Option String
  deriving Repr, Inhabited

def Field.mapArguments (f : InputValue → InputValue) (field : Field) : Field :=
  { field with arguments := field.arguments.map f }

inductive TypeBody where
  | scalar
  | object (interfaces : List String) (fields : List Field)
  | interface (interfaces : List String) (fields : List Field)
  | union (members : List String)
  | enum (values : List String)
  /-- Of the fields of a `@oneOf` input object exactly one is given, and not as null. -/
  | inputObject (fields : List InputValue) (isOneOf : Bool)
  deriving Repr, Inhabited

structure NamedType where
  name : String
  body : TypeBody
  deriving Repr, Inhabited

structure Directive where
  name : String
  arguments : List InputValue
  isRepeatable : Bool
  locations : List String
  deriving Repr, Inhabited

def specifiedScalars : List String :=
  ["Int", "Float", "String", "Boolean", "ID"]

namespace TypeBody

def isComposite : TypeBody → Bool
  | object _ _ | interface _ _ | union _ => true
  | _ => false

def isInput : TypeBody → Bool
  | scalar | enum _ | inputObject _ _ => true
  | _ => false

def isLeaf : TypeBody → Bool
  | scalar | enum _ => true
  | _ => false

def isObject : TypeBody → Bool
  | object _ _ => true
  | _ => false

/-- The fields that a selection on the type may name, apart from those of introspection. -/
def fields : TypeBody → List Field
  | object _ fields | interface _ fields => fields
  | _ => []

def inputFields : TypeBody → List InputValue
  | inputObject fields _ => fields
  | _ => []

def mapInputValues (f : InputValue → InputValue) : TypeBody → TypeBody
  | object interfaces fields => object interfaces (fields.map (·.mapArguments f))
  | interface interfaces fields => interface interfaces (fields.map (·.mapArguments f))
  | inputObject fields isOneOf => inputObject (fields.map f) isOneOf
  | other => other

def interfaces : TypeBody → List String
  | object interfaces _ | interface interfaces _ => interfaces
  | _ => []

end TypeBody

end Schema

structure Schema where
  /-- All types, in the order of their definitions. -/
  types : List Schema.NamedType
  directives : List Schema.Directive
  queryType : Option String
  mutationType : Option String
  subscriptionType : Option String
  deriving Repr, Inhabited

namespace Schema

variable (schema : Schema)

def mapInputValues (f : InputValue → InputValue) : Schema :=
  { schema with
    types := schema.types.map fun type => { type with body := type.body.mapInputValues f }
    directives := schema.directives.map fun directive =>
      { directive with arguments := directive.arguments.map f } }

def type? (name : String) : Option NamedType :=
  schema.types.find? (·.name == name)

def body? (name : String) : Option TypeBody :=
  (schema.type? name).map (·.body)

def directive? (name : String) : Option Directive :=
  schema.directives.find? (·.name == name)

/-- Whether the named type has a property; an unknown type has none. -/
def typeIs (property : TypeBody → Bool) (name : String) : Bool :=
  (schema.body? name).any property

def isComposite (name : String) : Bool :=
  schema.typeIs TypeBody.isComposite name

def rootType? : Source.OperationKind → Option String
  | .query => schema.queryType
  | .mutation => schema.mutationType
  | .subscription => schema.subscriptionType

def hasObjectRoots : Bool :=
  schema.queryType.isSome &&
    [schema.queryType, schema.mutationType, schema.subscriptionType].all fun root =>
      root.all (schema.typeIs TypeBody.isObject)

/-- The object types that list an interface, in the order of the schema. -/
def implementers (interface : String) : List String :=
  let lists (type : NamedType) : Bool :=
    type.body.isObject && type.body.interfaces.contains interface
  (schema.types.filter lists).map (·.name)

/-- The object types that a composite type may resolve to: an object type only to itself, an
interface to its implementers, and a union to its members. -/
def possibleTypes (name : String) : List String :=
  match schema.body? name with
  | some (.object _ _) => [name]
  | some (.interface _ _) => schema.implementers name
  | some (.union members) => members
  | _ => []

def isSubtype (abstract type : String) : Bool :=
  match schema.body? abstract with
  | some (.interface _ _) => (schema.body? type).any (·.interfaces.contains abstract)
  | some (.union members) => members.contains type
  | _ => false

def overlap (first second : String) : Bool :=
  let isAbstract (name : String) : Bool :=
    schema.isComposite name && !schema.typeIs TypeBody.isObject name
  if first = second then true
  else if isAbstract first then
    if isAbstract second then (schema.possibleTypes first).any (schema.isSubtype second)
    else schema.isSubtype first second
  else isAbstract second && schema.isSubtype second first

def isCustomScalar (name : String) : Bool :=
  schema.typeIs (· matches .scalar) name && !specifiedScalars.contains name

/-- Whether code generators have to declare the type: enums, input objects and custom scalars. -/
def isDeclared (name : String) : Bool :=
  schema.typeIs (fun body => body matches .enum _ | .inputObject _ _) name ||
    schema.isCustomScalar name

/-- The fields that exist without being defined: the name of an object's type, and introspection on
the root type of queries. -/
def typenameField : Field where
  name := "__typename"
  description := some "The name of the current Object type at runtime."
  type := .nonNull (.named "String")
  arguments := []
  deprecationReason := none

def schemaField : Field where
  name := "__schema"
  description := some "Access the current type schema of this server."
  type := .nonNull (.named "__Schema")
  arguments := []
  deprecationReason := none

def typeField : Field where
  name := "__type"
  description := some "Request the type information of a single type."
  type := .named "__Type"
  arguments :=
    [{ name := "name"
       type := .nonNull (.named "String")
       defaultLiteral := none
       deprecationReason := none }]
  deprecationReason := none

def ownField? (parent fieldName : String) : Option Field :=
  (schema.body? parent).bind fun body => body.fields.find? (·.name == fieldName)

def field? (parent fieldName : String) : Option Field :=
  if fieldName = "__typename" then some typenameField
  else if fieldName = "__schema" ∧ schema.queryType = some parent then some schemaField
  else if fieldName = "__type" ∧ schema.queryType = some parent then some typeField
  else schema.ownField? parent fieldName

end Schema

end QueryShape
