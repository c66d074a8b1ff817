import QueryShape.Text.Quoted
import QueryShape.Typed.Basic
import QueryShape.Walk

/-!
# References to fragments

A selection set depends on the fragments spread anywhere in it, and on those that they depend on in
turn. The names are listed in the order in which a walk through the selections first reaches them,
each once, so that fragments that spread each other are no obstacle.
-/

set_option autoImplicit false

namespace QueryShape.Typed

/-- A fragment that is referred to and not there, or a walk through fragments that would never end.
-/
inductive FragmentError where
  | missing (name : String) (known : List String)
  | cycle
  deriving DecidableEq, Repr

def FragmentError.message : FragmentError → String
  | missing name known =>
    "Fragment " ++ name ++ " is referenced but was not found among the compiled fragments: " ++
      Text.quotedList known
  | cycle => "maximum recursion depth exceeded"

mutual

def Selection.spreads : Selection → List String
  | .leaf _ => []
  | .composite _ _ selections => Selection.allSpreads selections
  | .typeCondition _ _ selections => Selection.allSpreads selections
  | .booleanCondition _ _ selections => Selection.allSpreads selections
  | .fragmentSpread name => [name]

def Selection.allSpreads : List Selection → List String
  | [] => []
  | selection :: rest => Selection.spreads selection ++ Selection.allSpreads rest

end

def SelectionSet.spreads (set : SelectionSet) : List String :=
  Selection.allSpreads set.selections

namespace Document

variable (document : Document)

def requireFragment (name : String) : Except FragmentError Fragment :=
  match document.fragment? name with
  | some fragment => .ok fragment
  | none => .error (.missing name document.fragmentNames)

def spreadsOf (name : String) : List String :=
  ((document.fragment? name).map (·.selectionSet.spreads)).getD []

/-- The names that a selection set depends on, whether or not they have fragments. -/
def reachableNames (set : SelectionSet) : List String :=
  Walk.fromAll document.spreadsOf document.fragments.length set.spreads

/-- The names of all fragments that a selection set depends on, all of which have to exist. -/
def references (set : SelectionSet) : Except FragmentError (List String) :=
  let names := document.reachableNames set
  match names.find? fun name => (document.fragment? name).isNone with
  | none => .ok names
  | some name => .error (.missing name document.fragmentNames)

end Document

end QueryShape.Typed
