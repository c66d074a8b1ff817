import QueryShape.Typed.References

/-!
# Inlining fragments

A spread means the selections of its fragment, for those possible types that match the fragment's
type. Inlining replaces every spread of a selection set by a type condition with these selections,
inside conditions and inside the fragments as well, but not below fields.
-/

set_option autoImplicit false

namespace QueryShape.Typed

mutual

def Selection.inlined (expand : List String → String → Except FragmentError Selection)
    (types : List String) : Selection → Except FragmentError Selection
  | .leaf head => .ok (.leaf head)
  | .composite head nestedTypes nested => .ok (.composite head nestedTypes nested)
  | .typeCondition type narrowed selections => do
    return .typeCondition type narrowed (← Selection.allInlined expand narrowed selections)
  | .booleanCondition check inner selections => do
    return .booleanCondition check inner (← Selection.allInlined expand inner selections)
  | .fragmentSpread name => expand types name

def Selection.allInlined (expand : List String → String → Except FragmentError Selection)
    (types : List String) : List Selection → Except FragmentError (List Selection)
  | [] => .ok []
  | selection :: rest => do
    let first ← Selection.inlined expand types selection
    return first :: (← Selection.allInlined expand types rest)

end

namespace Document

variable (document : Document)

/-- The selections that a spread stands for, where the given types are possible. The bound limits
how deeply fragments spread each other; among fragments without cycles their number is bound enough.
-/
def expansion : Nat → List String → String → Except FragmentError Selection
  | 0, _, name => do
    let _ ← document.requireFragment name
    throw .cycle
  | bound + 1, types, name => do
    let fragment ← document.requireFragment name
    let narrowed := PossibleTypes.intersect types fragment.selectionSet.possibleTypes
    return .typeCondition fragment.type narrowed
      (← Selection.allInlined (expansion bound) narrowed fragment.selectionSet.selections)

/-- The selection set without spreads at its own level. -/
def inlined (set : SelectionSet) : Except FragmentError SelectionSet := do
  return { set with
    selections :=
      ← Selection.allInlined (document.expansion document.fragments.length) set.possibleTypes
          set.selections }

end Document

end QueryShape.Typed
