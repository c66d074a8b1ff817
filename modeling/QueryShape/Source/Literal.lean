import QueryShape.Data
import QueryShape.Source.Basic

/-!
# The data of a literal

Literals stand for data: numerals for the numbers they denote, enum literals for strings, and
variables for `Data.reference`, wherever they appear. Of the fields of an object that share a name,
the place of the first and the value of the last count.
-/

set_option autoImplicit false

namespace QueryShape.Source.Value

mutual

def toData : Value → Data
  | var name => Data.reference name
  | int numeral => .int (Decimal.readInt numeral.toList)
  | float numeral => .float (Binary64.ofDecimal (Decimal.read numeral.toList))
  | string text _ => .string text
  | boolean value => .bool value
  | null => .null
  | enum name => .string name
  | list items => .list (itemsToData items)
  | object fields => .object (Data.distinctEntries (fieldsToData fields))

def itemsToData : List Value → List Data
  | [] => []
  | item :: rest => toData item :: itemsToData rest

def fieldsToData : List (String × Value) → List (String × Data)
  | [] => []
  | (name, value) :: rest => (name, toData value) :: fieldsToData rest

end

end QueryShape.Source.Value
