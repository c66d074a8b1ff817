import QueryShape.Schema.Introspection
import QueryShape.Walk

/-!
# Types of a schema

The rules that the types of a schema follow before documents are held against it: its root types are
object types, types have members, object types have what their interfaces promise, and input objects
can be given.
-/

set_option autoImplicit false

namespace QueryShape.Validity

open Schema (Field InputValue NamedType TypeBody)

inductive TypeRule where
  | objectRoots
  | unreservedNames
  | presentMembers
  | optionalIfDeprecated
  | keptInterfaces
  | distinctUnionMembers
  | optionalChoices
  | finiteInputObjects
  deriving DecidableEq, Repr

namespace TypeRule

def all : List TypeRule :=
  [objectRoots, unreservedNames, presentMembers, optionalIfDeprecated, keptInterfaces,
   distinctUnionMembers, optionalChoices, finiteInputObjects]

end TypeRule

def namesWithin (body : TypeBody) : List String :=
  (body.fields.flatMap fun field => field.name :: field.arguments.map (·.name)) ++
    body.inputFields.map (·.name) ++
    match body with
    | .enum values => values
    | _ => []

def hasMembers : TypeBody → Bool
  | .scalar => true
  | .object _ fields | .interface _ fields => !fields.isEmpty
  | .union members => !members.isEmpty
  | .enum values => !values.isEmpty
  | .inputObject fields _ => !fields.isEmpty

/-- Whether a value that has to be given is not deprecated. -/
def isOptionalIfDeprecated (value : InputValue) : Bool :=
  !value.isRequired || value.deprecationReason.isNone

section

variable (schema : Schema)

def ownTypes : List NamedType :=
  schema.types.filter fun type => !(Schema.Introspection.types.map (·.name)).contains type.name

def inputValues : List InputValue :=
  (schema.types.flatMap fun type =>
    type.body.fields.flatMap (·.arguments) ++ type.body.inputFields) ++
  schema.directives.flatMap (·.arguments)

/-- Whether values of the first type may stand where the second is promised. -/
def isOutputSubtype (first second : TypeRef) : Bool :=
  first.refines (fun sub super => sub == super || schema.isSubtype super sub) second

/-- Whether a field keeps what a field of an interface promises: a type at least as narrow, all its
arguments, and no others that have to be given. -/
def keepsField (promised field : Field) : Bool :=
  isOutputSubtype schema field.type promised.type &&
    (promised.arguments.all fun argument =>
      field.arguments.any fun own => own.name == argument.name && own.type == argument.type) &&
    field.arguments.all fun own =>
      !own.isRequired || (promised.arguments.map (·.name)).contains own.name

def keepsInterface (body : TypeBody) (name : String) : Bool :=
  (schema.body? name).all fun interface =>
    interface.interfaces.all body.interfaces.contains &&
      interface.fields.all fun promised =>
        body.fields.any fun field => field.name == promised.name && keepsField schema promised field

/-- The input object types that every value of an input object type contains a value of. -/
def containedTypes (name : String) : List String :=
  ((schema.body? name).map (·.inputFields)).getD [] |>.filterMap fun field =>
    match field.type with
    | .nonNull (.named inner) =>
      if schema.typeIs (· matches .inputObject _ _) inner then some inner else none
    | _ => none

def typesFollow : TypeRule → Bool
  | .objectRoots => schema.hasObjectRoots
  | .unreservedNames =>
    let names := (ownTypes schema).flatMap fun type => type.name :: namesWithin type.body
    let directiveNames := schema.directives.flatMap fun directive =>
      directive.name :: directive.arguments.map (·.name)
    (names ++ directiveNames).all fun name => !name.startsWith "__"
  | .presentMembers => schema.types.all fun type => hasMembers type.body
  | .optionalIfDeprecated => (inputValues schema).all isOptionalIfDeprecated
  | .keptInterfaces =>
    schema.types.all fun type =>
      decide type.body.interfaces.Nodup && !type.body.interfaces.contains type.name &&
        type.body.interfaces.all (keepsInterface schema type.body)
  | .distinctUnionMembers =>
    schema.types.all fun type =>
      match type.body with
      | .union members => decide members.Nodup
      | _ => true
  | .optionalChoices =>
    schema.types.all fun type =>
      match type.body with
      | .inputObject fields true =>
        fields.all fun field => !field.type.isNonNull && !field.hasDefault
      | _ => true
  | .finiteInputObjects =>
    Walk.isAcyclic (containedTypes schema) (schema.types.map (·.name))

def typesValid : Bool :=
  TypeRule.all.all (typesFollow schema)

end

end QueryShape.Validity
