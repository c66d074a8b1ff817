import QueryShape.Schema.Basic
import QueryShape.Walk

/-!
# Types that a document uses

Code generators declare the enums, input objects and custom scalars that a document refers to: as
the type of a variable, as the type of a selected field, or as the type of a field of such an input
object. They are listed in the order in which a walk through the document first meets them,
fragments before operations.
-/

set_option autoImplicit false

namespace QueryShape.Typed

section

variable (schema : Schema)

mutual

def fieldTypes (parent : String) : Source.Selection → List String
  | .field _ name _ _ selections =>
    match schema.field? parent name with
    | none => []
    | some definition =>
      let inner := definition.type.innermost
      inner :: (if schema.isComposite inner then allFieldTypes inner selections else [])
  | .fragmentSpread _ _ => []
  | .inlineFragment typeCondition _ selections =>
    allFieldTypes (typeCondition.getD parent) selections

def allFieldTypes (parent : String) : List Source.Selection → List String
  | [] => []
  | selection :: rest => fieldTypes parent selection ++ allFieldTypes parent rest

end

def operationTypes (operation : Source.Operation) : List String :=
  operation.variableDefinitions.map (·.type.innermost) ++
    (match schema.rootType? operation.kind with
      | none => []
      | some rootType => allFieldTypes schema rootType operation.selections)

/-- The types that a document refers to, fragments first, with repetitions. -/
def mentionedTypes (document : Source.Document) : List String :=
  document.fragments.flatMap (fun fragment =>
    allFieldTypes schema fragment.typeCondition fragment.selections) ++
  document.operations.flatMap (operationTypes schema)

def inputFieldTypes (name : String) : List String :=
  match schema.body? name with
  | some (.inputObject fields _) => (fields.map (·.type.innermost)).filter schema.isDeclared
  | _ => []

/-- The declared types that a document refers to, directly or through input objects. -/
def usedTypes (document : Source.Document) : List String :=
  Walk.fromAll (inputFieldTypes schema) schema.types.length
    ((mentionedTypes schema document).filter schema.isDeclared)

end

end QueryShape.Typed
