/-!
# References to types

A reference names a type of a schema, possibly under list and non-null wrappers. Its written form is
the one of the query language: brackets around a list, an exclamation mark after a non-null type.
-/

set_option autoImplicit false

namespace QueryShape

inductive TypeRef where
  | named (name : String)
  | list (item : TypeRef)
  | nonNull (type : TypeRef)
  deriving DecidableEq, Repr, Inhabited

namespace TypeRef

def innermost : TypeRef → String
  | named name => name
  | list item => item.innermost
  | nonNull type => type.innermost

/-- The written form, such as `[Animal!]!`. -/
def text : TypeRef → String
  | named name => name
  | list item => "[" ++ item.text ++ "]"
  | nonNull type => type.text ++ "!"

/-- The type without the non-null wrapper around it, if it has one. -/
def nullable : TypeRef → TypeRef
  | nonNull type => type
  | other => other

def isNonNull : TypeRef → Bool
  | nonNull _ => true
  | _ => false

/-- Whether every value of the first type is a value of the second, given for which names this
holds. -/
def refines (onNames : String → String → Bool) : TypeRef → TypeRef → Bool
  | nonNull sub, nonNull super => refines onNames sub super
  | nonNull sub, super => refines onNames sub super
  | list sub, list super => refines onNames sub super
  | named sub, named super => onNames sub super
  | _, _ => false

end TypeRef

end QueryShape
