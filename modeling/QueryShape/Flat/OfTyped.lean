import QueryShape.Flat.Basic
import QueryShape.Options
import QueryShape.Typed.Identity
import QueryShape.Typed.Inlining
import QueryShape.Typed.Spreads
import QueryShape.Typed.TypeCase

/-!
# Flattening

The flat form of a typed document. A selection set is sorted into a type case, with its fragments
inlined first if the options say so; its default record becomes the fields of the node, and every
other record becomes one inline fragment for each of its types, if there is anything to say about
them. The names of fragments are always taken from the selection set as it was before inlining.
-/

set_option autoImplicit false

namespace QueryShape.Flat

open Typed (FragmentError SelectionSet Record TypeCase)

/-- How deeply composite fields can be nested in a selection set and the fragments it may use. A
field that is reached through fragments without cycles passes through each of them once at most. -/
def depthBound (document : Typed.Document) (set : SelectionSet) : Nat :=
  document.fragments.foldr (fun fragment bound => fragment.selectionSet.depth + bound) set.depth

/-- The flat form of a field without its selection. An empty alias counts as none. -/
def FieldHead.ofTyped (head : Typed.FieldHead) : FieldHead where
  responseName :=
    match head.aliasName with
    | some aliasName => if aliasName = "" then head.name else aliasName
    | none => head.name
  fieldName := head.name
  type := head.type
  args := head.args
  description := head.description
  isConditional := head.isConditional
  conditions := if head.conditions.isEmpty then none else some head.conditions
  isDeprecated := head.isDeprecated
  deprecationReason := head.deprecationReason

/-- Whether the types of a record get inline fragments. A record of all types has nothing beyond the
default fields. If empty inline fragments are to be left out, a record without fields still needs
them when its types use fragments that the others do not. -/
def needsInlineFragments (options : Options) (set : SelectionSet) (record : Record) : Bool :=
  if PossibleTypes.contained set.possibleTypes record.possibleTypes then false
  else if options.omitEmptyInlineFragments && record.fields.isEmpty then
    (set.spreadNamesFor record.possibleTypes).any (· ∉ set.spreadNames)
  else true

def typeCaseOf (options : Options) (document : Typed.Document) (set : SelectionSet) :
    Except FragmentError TypeCase := do
  if options.mergeSpreadFields then return (← document.inlined set).typeCase
  else return set.typeCase

def Field.ofTyped (flatten : SelectionSet → Except FragmentError Selection)
    (field : Typed.Field) : Except FragmentError Field :=
  match field.selectionSet with
  | none => .ok (.leaf (.ofTyped field.head))
  | some nested => do
    let selection ← flatten nested
    return .composite (.ofTyped field.head) selection.fields selection.spreads
      selection.inlineFragments

def inlineFragmentsFor (set : SelectionSet) (record : Record) (fields : List Field) :
    List InlineFragment :=
  record.possibleTypes.map fun type => .mk type fields (set.spreadNamesFor [type])

/-- Flattens a selection set whose composite fields are nested less deeply than the bound. A bound
that is too small means that fragments spread each other in a cycle. -/
def Selection.ofTyped (options : Options) (document : Typed.Document) :
    Nat → SelectionSet → Except FragmentError Selection
  | 0, _ => .error .cycle
  | bound + 1, set => do
    let typeCase ← typeCaseOf options document set
    let flattenField := Field.ofTyped (Selection.ofTyped options document bound)
    let fields ← typeCase.defaultRecord.fields.mapM flattenField
    let records := typeCase.records.filter (needsInlineFragments options set)
    let groups ← records.mapM fun record => do
      return inlineFragmentsFor set record (← record.fields.mapM flattenField)
    return { fields, spreads := set.spreadNames, inlineFragments := groups.flatten }

def flatten (options : Options) (document : Typed.Document) (set : SelectionSet) :
    Except FragmentError Selection :=
  Selection.ofTyped options document (depthBound document set + 1) set

def Operation.ofTyped (options : Options) (document : Typed.Document)
    (operation : Typed.Operation) : Except FragmentError Operation := do
  let references ← document.references operation.selectionSet
  let identity ← document.identityWith operation references
  let selection ← flatten options document operation.selectionSet
  return {
    filePath := operation.filePath
    name := operation.name
    kind := operation.kind
    rootType := operation.rootType
    variableTypes := operation.variableTypes
    source := operation.source
    selection
    fragmentsReferenced := references
    sourceWithFragments := identity.sourceWithFragments
    operationId := identity.operationId }

def Fragment.ofTyped (options : Options) (document : Typed.Document)
    (fragment : Typed.Fragment) : Except FragmentError Fragment := do
  let selection ← flatten options document fragment.selectionSet
  return {
    filePath := fragment.filePath
    name := fragment.name
    source := fragment.source
    type := fragment.type
    possibleTypes := fragment.selectionSet.possibleTypes
    selection }

def Document.ofTyped (options : Options) (document : Typed.Document) :
    Except FragmentError Document := do
  let operations ← document.operations.mapM (Operation.ofTyped options document)
  let fragments ← document.fragments.mapM (Fragment.ofTyped options document)
  return { operations, fragments, typesUsed := document.typesUsed }

end QueryShape.Flat
