import QueryShape.Source.Basic

/-!
# Adding `__typename`

The selection sets of fields and of fragments get a `__typename` field in front, unless one without
an alias is already selected directly in them. The selection sets of operations and inline fragments
get none of their own.
-/

set_option autoImplicit false

namespace QueryShape.Source

def typenameName : String := "__typename"

namespace Selection

def typenameField : Selection :=
  .field none typenameName [] [] []

/-- Whether the selection is a `__typename` field without an alias. -/
def isTypename : Selection → Bool
  | .field none name _ _ _ => name == typenameName
  | _ => false

/-- A selection set with `__typename` in front, unless it has it or there is no selection set. -/
def withTypename (selections : List Selection) : List Selection :=
  if selections.isEmpty || selections.any isTypename then selections
  else typenameField :: selections

mutual

def addTypename : Selection → Selection
  | .field aliasName name arguments directives selections =>
    .field aliasName name arguments directives (withTypename (addTypenames selections))
  | .fragmentSpread name directives => .fragmentSpread name directives
  | .inlineFragment typeCondition directives selections =>
    .inlineFragment typeCondition directives (addTypenames selections)

def addTypenames : List Selection → List Selection
  | [] => []
  | selection :: rest => addTypename selection :: addTypenames rest

end

end Selection

def Definition.addTypename : Definition → Definition
  | .operation definition =>
    .operation { definition with selections := Selection.addTypenames definition.selections }
  | .fragment definition =>
    .fragment { definition with
      selections := Selection.withTypename (Selection.addTypenames definition.selections) }
  | other => other

def Document.addTypename (document : Document) : Document :=
  { definitions := document.definitions.map Definition.addTypename }

end QueryShape.Source
