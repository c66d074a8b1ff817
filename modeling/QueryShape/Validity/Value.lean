import QueryShape.Schema.Literal

/-!
# Literals and types

Whether a literal may be given where a value of some type is expected, and what is expected of the
variables inside it. Variables themselves fit anywhere here; whether they may stand at their
places is asked of their declared types, `variableFits`.
-/

set_option autoImplicit false

namespace QueryShape.Validity

open Source (Value)

section

variable (schema : Schema)

def fitsLeaf (expected : Option TypeRef) (value : Value) : Bool :=
  expected.all fun type =>
    (schema.body? type.innermost).isNone || schema.isOfLeaf type.innermost value

/-- The type expected of the items of a list literal. A type that is no list is its own item type.
-/
def itemType (type : TypeRef) : TypeRef :=
  match type.nullable with
  | .list item => item
  | other => other

/-- The declared fields of the input object that is expected, if it is one, and whether exactly one
of them has to be given. -/
def expectedFields? (expected : Option TypeRef) : Option (List Schema.InputValue × Bool) :=
  match expected.bind (schema.body? ·.innermost) with
  | some (.inputObject fields isOneOf) => some (fields, isOneOf)
  | _ => none

mutual

/-- Whether a literal may be given where a value of the type is expected; anything may be where the
expected type is not known. -/
def fits (expected : Option TypeRef) : Value → Bool
  | .var _ => true
  | .null => !(expected.any TypeRef.isNonNull)
  | .list items =>
    match expected.map TypeRef.nullable with
    | some (.list item) => allFit (some item) items
    | _ => fitsLeaf schema expected (.list items)
  | .object given =>
    match expectedFields? schema expected with
    | some (fields, isOneOf) =>
      (fields.all fun field =>
        !field.isRequired || (given.map (·.1)).contains field.name) &&
      fieldsFit fields given && (!isOneOf || Schema.isSingleChoice fields given)
    | none => fitsLeaf schema expected (.object given)
  | other => fitsLeaf schema expected other

def allFit (expected : Option TypeRef) : List Value → Bool
  | [] => true
  | item :: rest => fits expected item && allFit expected rest

def fieldsFit (fields : List Schema.InputValue) : List (String × Value) → Bool
  | [] => true
  | (name, value) :: rest =>
    (match fields.find? (·.name == name) with
      | some field => fits (some field.type) value
      | none => false) &&
    fieldsFit fields rest

end

def expectsOneOf (expected : Option TypeRef) : Bool :=
  match expected with
  | some (.named name) => schema.typeIs (· matches .inputObject _ true) name
  | _ => false

/-- What is expected where a literal stands: its type if that is known, whether there is a default
in case it has no value, and whether null cannot stand there although its type allows it. -/
structure Expectation where
  type : Option TypeRef
  hasDefault : Bool
  isOnlyField : Bool

def Expectation.unknown : Expectation where
  type := none
  hasDefault := false
  isOnlyField := false

def Expectation.ofArgument : Option Schema.InputValue → Expectation
  | none => .unknown
  | some declared =>
    { type := some declared.type
      hasDefault := declared.hasDefault
      isOnlyField := false }

structure Usage where
  name : String
  expectation : Expectation

def Expectation.ofItem (expectation : Expectation) : Expectation where
  type := expectation.type.map itemType
  hasDefault := false
  isOnlyField := false

def Expectation.ofField (expectation : Expectation) (name : String) : Expectation :=
  let declared := (expectedFields? schema expectation.type).bind fun fields =>
    fields.1.find? (·.name == name)
  { Expectation.ofArgument declared with isOnlyField := expectsOneOf schema expectation.type }

mutual

def usages (expectation : Expectation) : Value → List Usage
  | .var name => [{ name, expectation }]
  | .list items => itemUsages expectation.ofItem items
  | .object given => fieldUsages expectation given
  | _ => []

def itemUsages (expectation : Expectation) : List Value → List Usage
  | [] => []
  | item :: rest => usages expectation item ++ itemUsages expectation rest

def fieldUsages (object : Expectation) : List (String × Value) → List Usage
  | [] => []
  | (name, value) :: rest =>
    usages (object.ofField schema name) value ++ fieldUsages object rest

end

/-- Whether a variable of the declared type may stand where something is expected. A variable that
may be null may stand where null is not allowed only if a default takes its place, and never as the
only field of its object. -/
def variableFits (declared : TypeRef) (hasNonNullDefault : Bool) (place : Expectation) : Bool :=
  match place.type with
  | none => true
  | some expected =>
    (if expected.isNonNull && !declared.isNonNull then
      (hasNonNullDefault || place.hasDefault) && declared.refines (· == ·) expected.nullable
    else declared.refines (· == ·) expected) &&
    (declared.isNonNull || !place.isOnlyField)

end

mutual

def hasUniqueFields : Value → Bool
  | .list items => allHaveUniqueFields items
  | .object fields => decide (fields.map (·.1)).Nodup && fieldsHaveUniqueFields fields
  | _ => true

def allHaveUniqueFields : List Value → Bool
  | [] => true
  | item :: rest => hasUniqueFields item && allHaveUniqueFields rest

def fieldsHaveUniqueFields : List (String × Value) → Bool
  | [] => true
  | (_, value) :: rest => hasUniqueFields value && fieldsHaveUniqueFields rest

end

end QueryShape.Validity
