import QueryShape.Schema.Basic

/-!
# Possible types of a type as written

Only composite types without wrappers have possible types. Any other type is described by the kind
of type it is.
-/

set_option autoImplicit false

namespace QueryShape.Schema

structure NotComposite where
  kindName : String
  text : String
  deriving DecidableEq, Repr

def NotComposite.message (type : NotComposite) : String :=
  "Expected a composite type, but got: " ++ type.kindName ++ " " ++ type.text

section

variable (schema : Schema)

/-- Describes a type that is not composite. A type that the schema lacks is none at all. -/
def describe (type : TypeRef) : NotComposite :=
  match schema.body? type.innermost, type with
  | none, _ => ⟨"NoneType", "None"⟩
  | some _, .list _ => ⟨"GraphQLList", type.text⟩
  | some _, .nonNull _ => ⟨"GraphQLNonNull", type.text⟩
  | some body, .named name =>
    match body with
    | .scalar => ⟨"GraphQLScalarType", name⟩
    | .enum _ => ⟨"GraphQLEnumType", name⟩
    | .inputObject _ _ => ⟨"GraphQLInputObjectType", name⟩
    | .object _ _ => ⟨"GraphQLObjectType", name⟩
    | .interface _ _ => ⟨"GraphQLInterfaceType", name⟩
    | .union _ => ⟨"GraphQLUnionType", name⟩

def possibleTypesOf (type : TypeRef) : Except NotComposite (List String) :=
  match type with
  | .named name =>
    if schema.isComposite name then .ok (schema.possibleTypes name)
    else .error (schema.describe type)
  | _ => .error (schema.describe type)

def isUnwrapped (property : String → Bool) : TypeRef → Bool
  | .named name => property name
  | _ => false

end

end QueryShape.Schema
