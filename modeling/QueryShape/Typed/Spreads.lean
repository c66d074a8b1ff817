import QueryShape.Distinct
import QueryShape.Typed.Basic

/-!
# Spreads of a selection set

The fragments that a selection set spreads itself, that is not below a field and not inside another
fragment. A spread under a type condition applies to a list of types only if all of them are
possible types of the condition; checks of variables do not matter.
-/

set_option autoImplicit false

namespace QueryShape.Typed

mutual

/-- The names spread in a selection that apply to all of the given types. -/
def Selection.spreadsFor (types : List String) : Selection → List String
  | .leaf _ => []
  | .composite _ _ _ => []
  | .typeCondition _ narrowed selections =>
    if PossibleTypes.contained types narrowed then Selection.allSpreadsFor types selections else []
  | .booleanCondition _ _ selections => Selection.allSpreadsFor types selections
  | .fragmentSpread name => [name]

def Selection.allSpreadsFor (types : List String) : List Selection → List String
  | [] => []
  | selection :: rest =>
    Selection.spreadsFor types selection ++ Selection.allSpreadsFor types rest

end

namespace SelectionSet

def spreadsFor (set : SelectionSet) (types : List String) : List String :=
  Selection.allSpreadsFor types set.selections

/-- The distinct names spread in the set that apply to all of the given types. -/
def spreadNamesFor (set : SelectionSet) (types : List String) : List String :=
  distinct (set.spreadsFor types)

def spreadNames (set : SelectionSet) : List String :=
  set.spreadNamesFor set.possibleTypes

end SelectionSet

end QueryShape.Typed
