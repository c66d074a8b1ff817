import QueryShape.Typed.Basic

/-!
# Flat documents

The flat form of a document, in which selections are not conditional. A node has the fields selected
for every possible type, the names of the fragments that apply to every possible type, and an inline
fragment for each single type that selects more or other fields. Checks of variables are attached to
the fields that depend on them.
-/

set_option autoImplicit false

namespace QueryShape.Flat

/-- What is known of a field apart from its selection. `conditions` is present on fields that are
selected only under checks. -/
structure FieldHead where
  responseName : String
  fieldName : String
  type : TypeRef
  args : List Typed.Argument
  description : Option String
  isConditional : Bool
  conditions : Option (List Typed.Check)
  isDeprecated : Bool
  deprecationReason : Option String
  deriving Repr, Inhabited

mutual

inductive Field where
  | leaf (head : FieldHead)
  | composite (head : FieldHead) (fields : List Field) (spreads : List String)
      (inlineFragments : List InlineFragment)

inductive InlineFragment where
  | mk (type : String) (fields : List Field) (spreads : List String)

end

instance : Inhabited Field := ⟨.leaf default⟩

namespace Field

def head : Field → FieldHead
  | leaf head => head
  | composite head _ _ _ => head

def responseName (field : Field) : String :=
  field.head.responseName

end Field

namespace InlineFragment

def type : InlineFragment → String
  | mk type _ _ => type

def fields : InlineFragment → List Field
  | mk _ fields _ => fields

def spreads : InlineFragment → List String
  | mk _ _ spreads => spreads

def possibleTypes (fragment : InlineFragment) : List String :=
  [fragment.type]

end InlineFragment

structure Selection where
  fields : List Field
  spreads : List String
  inlineFragments : List InlineFragment
  deriving Inhabited

def Field.selection? : Field → Option Selection
  | leaf _ => none
  | composite _ fields spreads inlineFragments => some ⟨fields, spreads, inlineFragments⟩

structure Operation where
  filePath : Option String
  name : String
  kind : Source.OperationKind
  rootType : String
  variableTypes : List Typed.Variable
  source : String
  selection : Selection
  fragmentsReferenced : List String
  sourceWithFragments : String
  operationId : String
  deriving Inhabited

structure Fragment where
  filePath : Option String
  name : String
  source : String
  type : String
  possibleTypes : List String
  selection : Selection
  deriving Inhabited

structure Document where
  operations : List Operation
  fragments : List Fragment
  typesUsed : List String
  deriving Inhabited

namespace Document

variable (document : Document)

def operation? (name : String) : Option Operation :=
  document.operations.find? (·.name == name)

def fragment? (name : String) : Option Fragment :=
  document.fragments.find? (·.name == name)

def fragmentsOf? (operationName : String) : Option (List Fragment) := do
  let operation ← document.operation? operationName
  operation.fragmentsReferenced.mapM document.fragment?

end Document

/-- A place in a flat document that can be looked into. -/
inductive Node where
  /-- An operation, a fragment or a composite field. -/
  | selection (selection : Selection)
  | leaf
  | inlineFragment (fragment : InlineFragment)

namespace Node

def ofField (field : Field) : Node :=
  match field.selection? with
  | some nested => .selection nested
  | none => .leaf

def fields? : Node → Option (List Field)
  | selection s => some s.fields
  | leaf => none
  | inlineFragment fragment => some fragment.fields

def spreads? : Node → Option (List String)
  | selection s => some s.spreads
  | leaf => none
  | inlineFragment fragment => some fragment.spreads

/-- The inline fragments of the node; an inline fragment cannot have any. -/
def inlineFragments? : Node → Option (List InlineFragment)
  | selection s => some s.inlineFragments
  | leaf => some []
  | inlineFragment _ => none

def inlineTypes? (node : Node) : Option (List String) :=
  node.inlineFragments?.map fun fragments =>
    (Data.distinctEntries (fragments.map fun fragment => (fragment.type, fragment))).map (·.1)

/-- The field with the given response name, the last one if there are several. -/
def field? (node : Node) (responseName : String) : Option Node := do
  let field ← (← node.fields?).reverse.find? (·.responseName == responseName)
  return ofField field

def inlineFragmentFor? (node : Node) (type : String) : Option Node := do
  let fragment ← (← node.inlineFragments?).reverse.find? (·.type == type)
  return .inlineFragment fragment

end Node

end QueryShape.Flat
