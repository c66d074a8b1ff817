import QueryShape.Distinct
import QueryShape.Typed.Basic

/-!
# Merging fields

Several selections under one response key make up one field. It is unconditional if one of them is,
and otherwise selected under the checks of all of them; its nested selections are those of all of
them in order. Everything else is taken from the first.
-/

set_option autoImplicit false

namespace QueryShape.Typed

/-- The nested selection set of two merged fields. Only selections that both fields bring are
joined. -/
def SelectionSet.merge : Option SelectionSet → Option SelectionSet → Option SelectionSet
  | some first, some second =>
    some { first with selections := first.selections ++ second.selections }
  | first, _ => first

namespace Field

def merge (first second : Field) : Field :=
  let isConditional := first.head.isConditional && second.head.isConditional
  { head := { first.head with
      isConditional
      conditions :=
        if isConditional then distinct (first.head.conditions ++ second.head.conditions)
        else [] }
    selectionSet := SelectionSet.merge first.selectionSet second.selectionSet }

/-- Merges fields that have the same response key, and no others. -/
def merge? (first second : Field) : Option Field :=
  if first.responseKey = second.responseKey then some (first.merge second) else none

end Field

end QueryShape.Typed
