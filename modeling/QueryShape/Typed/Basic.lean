import QueryShape.Data
import QueryShape.PossibleTypes
import QueryShape.TypeRef
import QueryShape.Source.Basic

/-!
# Typed documents

The typed form of a document. Every selection set knows the object types it may resolve against, its
possible types, and holds fields, selections under a type condition, selections under a check of a
boolean variable, and spreads of fragments. A field has a selection set of its own if its type is
composite.
-/

set_option autoImplicit false

namespace QueryShape.Typed

structure Argument where
  name : String
  value : Data
  deriving Repr, Inhabited

/-- A test of a boolean variable: that it is true or, if inverted, that it is false. -/
structure Check where
  variableName : String
  inverted : Bool
  deriving DecidableEq, Repr, Inhabited

/-- What is known of a selected field apart from its selection set. A conditional field is selected
only under the checks in `conditions`. -/
structure FieldHead where
  responseKey : String
  name : String
  aliasName : Option String
  type : TypeRef
  args : List Argument
  description : Option String
  isDeprecated : Bool
  deprecationReason : Option String
  isConditional : Bool
  conditions : List Check
  deriving Repr, Inhabited

inductive Selection where
  | leaf (head : FieldHead)
  | composite (head : FieldHead) (possibleTypes : List String) (selections : List Selection)
  | typeCondition (type : String) (possibleTypes : List String) (selections : List Selection)
  | booleanCondition (check : Check) (possibleTypes : List String) (selections : List Selection)
  | fragmentSpread (name : String)
  deriving Repr, Inhabited

structure SelectionSet where
  possibleTypes : List String
  selections : List Selection
  deriving Repr, Inhabited

structure Field where
  head : FieldHead
  selectionSet : Option SelectionSet
  deriving Repr, Inhabited

def Field.responseKey (field : Field) : String :=
  field.head.responseKey

def Field.toSelection (field : Field) : Selection :=
  match field.selectionSet with
  | none => .leaf field.head
  | some nested => .composite field.head nested.possibleTypes nested.selections

namespace Selection

def selectionSet? : Selection → Option SelectionSet
  | leaf _ => none
  | composite _ types selections => some ⟨types, selections⟩
  | typeCondition _ types selections => some ⟨types, selections⟩
  | booleanCondition _ types selections => some ⟨types, selections⟩
  | fragmentSpread _ => none

end Selection

mutual

def Selection.depth : Selection → Nat
  | .leaf _ => 0
  | .composite _ _ selections => Selection.maxDepth selections + 1
  | .typeCondition _ _ selections => Selection.maxDepth selections
  | .booleanCondition _ _ selections => Selection.maxDepth selections
  | .fragmentSpread _ => 0

def Selection.maxDepth : List Selection → Nat
  | [] => 0
  | selection :: rest => max (Selection.depth selection) (Selection.maxDepth rest)

end

def SelectionSet.depth (set : SelectionSet) : Nat :=
  Selection.maxDepth set.selections

/-- The selection set reached by going into the selections at the given places, one after another.
-/
def SelectionSet.descend? (set : SelectionSet) : List Nat → Option SelectionSet
  | [] => some set
  | index :: rest =>
    (set.selections[index]?.bind Selection.selectionSet?).bind fun nested => nested.descend? rest

structure Variable where
  name : String
  type : TypeRef
  deriving Repr, Inhabited

structure Operation where
  filePath : Option String
  name : String
  kind : Source.OperationKind
  rootType : String
  variableTypes : List Variable
  source : String
  selectionSet : SelectionSet
  deriving Repr, Inhabited

structure Fragment where
  filePath : Option String
  name : String
  source : String
  /-- The type that the fragment is declared on. -/
  type : String
  selectionSet : SelectionSet
  deriving Repr, Inhabited

/-- The operations and fragments of a document, each kind with distinct names. -/
structure Document where
  operations : List Operation
  fragments : List Fragment
  /-- The enums, input objects and custom scalars that the document refers to. -/
  typesUsed : List String
  deriving Repr, Inhabited

namespace Document

variable (document : Document)

def operation? (name : String) : Option Operation :=
  document.operations.find? (·.name == name)

def fragment? (name : String) : Option Fragment :=
  document.fragments.find? (·.name == name)

def fragmentNames : List String :=
  document.fragments.map (·.name)

end Document

end QueryShape.Typed
