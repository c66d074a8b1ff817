import QueryShape.Decimal.Basic
import QueryShape.Schema.Basic

/-!
# Literals of a type

Which constants denote a value of which type. A default counts only if its literal denotes a value
of the type that it is the default of; since a field may be left out of an object if it has a
default, the defaults of a schema are settled in rounds, each with those of the round before.
-/

set_option autoImplicit false

namespace QueryShape.Schema

open Source (Value)

def isInt32 (numeral : String) : Bool :=
  let n := Decimal.readInt numeral.toList
  decide (-2147483648 ≤ n ∧ n ≤ 2147483647)

/-- Whether a literal denotes a value of a scalar type. Any literal does of a custom one. -/
def isOfScalar (name : String) (value : Value) : Bool :=
  if name = "Int" then
    match value with
    | .int numeral => isInt32 numeral
    | _ => false
  else if name = "Float" then value matches .int _ | .float _
  else if name = "String" then value matches .string _ _
  else if name = "Boolean" then value matches .boolean _
  else if name = "ID" then value matches .int _ | .string _ _
  else true

section

variable (schema : Schema)

def isOfLeaf (name : String) (value : Value) : Bool :=
  match schema.body? name with
  | some .scalar => isOfScalar name value
  | some (.enum members) =>
    match value with
    | .enum member => members.contains member
    | _ => false
  | _ => false

/-- Whether the entries that name declared fields are exactly one, and not null. -/
def isSingleChoice (fields : List InputValue) (given : List (String × Value)) : Bool :=
  match given.filter fun entry => (fields.map (·.name)).contains entry.1 with
  | [(_, .null)] => false
  | [_] => true
  | _ => false

mutual

/-- Whether a constant denotes a value of a type. A value that is no list stands for a list of it
alone where a list is expected. -/
def denotes (type : TypeRef) : Value → Bool
  | .null => !type.isNonNull
  | .list items =>
    match type.nullable with
    | .list item => allDenote item items
    | other => schema.isOfLeaf other.innermost (.list items)
  | .object given =>
    match schema.body? type.innermost with
    | some (.inputObject fields isOneOf) =>
      (fields.all fun field => !field.isRequired || (given.map (·.1)).contains field.name) &&
        entriesDenote fields given && (!isOneOf || isSingleChoice fields given)
    | _ => schema.isOfLeaf type.innermost (.object given)
  | other => schema.isOfLeaf type.innermost other

def allDenote (item : TypeRef) : List Value → Bool
  | [] => true
  | value :: rest => denotes item value && allDenote item rest

def entriesDenote (fields : List InputValue) : List (String × Value) → Bool
  | [] => true
  | (name, value) :: rest =>
    (match fields.find? (·.name == name) with
      | some field => denotes field.type value
      | none => true) &&
    entriesDenote fields rest

end

/-- An argument or input field that keeps its default only if that denotes a value. -/
def InputValue.settled (value : InputValue) : InputValue :=
  { value with defaultLiteral := value.defaultLiteral.filter (schema.denotes value.type) }

/-- The schema with those defaults that denote values when the bound limits how deeply defaults
depend on each other. -/
def settledWithin : Nat → Schema
  | 0 => schema.mapInputValues fun value => { value with defaultLiteral := none }
  | bound + 1 => schema.mapInputValues (InputValue.settled (settledWithin bound))

def inputDefaultCount : Nat :=
  (schema.types.flatMap fun type => type.body.inputFields.filter (·.hasDefault)).length

def settled : Schema :=
  schema.settledWithin (schema.inputDefaultCount + 1)

end

end QueryShape.Schema
