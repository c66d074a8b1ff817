import QueryShape.TypeRef

/-!
# Documents as they are written

The structure of a document of the query language: operations and fragments with their selections,
and the definitions of types and directives that make up a schema. A selection set is a list of
selections, and the empty list stands for a field without one, since a written selection set is
never empty. Comments and positions in the text are not kept, nor are the descriptions of types,
directives, enum values and input values.
-/

set_option autoImplicit false

namespace QueryShape.Source

/-- A literal. Numerals keep their written form. -/
inductive Value where
  | var (name : String)
  | int (numeral : String)
  | float (numeral : String)
  | string (text : String) (isBlock : Bool)
  | boolean (value : Bool)
  | null
  | enum (name : String)
  | list (items : List Value)
  | object (fields : List (String × Value))
  deriving Repr, Inhabited

structure Argument where
  name : String
  value : Value
  deriving Repr, Inhabited

structure Directive where
  name : String
  arguments : List Argument
  deriving Repr, Inhabited

inductive Selection where
  | field (aliasName : Option String) (name : String) (arguments : List Argument)
      (directives : List Directive) (selections : List Selection)
  | fragmentSpread (name : String) (directives : List Directive)
  | inlineFragment (typeCondition : Option String) (directives : List Directive)
      (selections : List Selection)
  deriving Repr, Inhabited

namespace Selection

def directives : Selection → List Directive
  | field _ _ _ directives _ => directives
  | fragmentSpread _ directives => directives
  | inlineFragment _ directives _ => directives

end Selection

structure Description where
  text : String
  isBlock : Bool
  deriving Repr, Inhabited

inductive OperationKind where
  | query
  | mutation
  | subscription
  deriving DecidableEq, Repr, Inhabited

def OperationKind.keyword : OperationKind → String
  | query => "query"
  | mutation => "mutation"
  | subscription => "subscription"

structure VariableDefinition where
  description : Option Description
  name : String
  type : TypeRef
  defaultValue : Option Value
  directives : List Directive
  deriving Repr, Inhabited

structure Operation where
  description : Option Description
  kind : OperationKind
  name : Option String
  variableDefinitions : List VariableDefinition
  directives : List Directive
  selections : List Selection
  deriving Repr, Inhabited

structure Fragment where
  description : Option Description
  name : String
  typeCondition : String
  directives : List Directive
  selections : List Selection
  deriving Repr, Inhabited

structure InputValueDefinition where
  name : String
  type : TypeRef
  defaultValue : Option Value
  directives : List Directive
  deriving Repr, Inhabited

structure FieldDefinition where
  description : Option Description
  name : String
  arguments : List InputValueDefinition
  type : TypeRef
  directives : List Directive
  deriving Repr, Inhabited

structure EnumValueDefinition where
  name : String
  directives : List Directive
  deriving Repr, Inhabited

inductive TypeBody where
  | scalar
  | object (interfaces : List String) (fields : List FieldDefinition)
  | interface (interfaces : List String) (fields : List FieldDefinition)
  | union (members : List String)
  | enum (values : List EnumValueDefinition)
  | inputObject (fields : List InputValueDefinition)
  deriving Repr, Inhabited

structure TypeDefinition where
  name : String
  directives : List Directive
  body : TypeBody
  deriving Repr, Inhabited

structure SchemaDefinition where
  directives : List Directive
  roots : List (OperationKind × String)
  deriving Repr, Inhabited

structure DirectiveDefinition where
  name : String
  arguments : List InputValueDefinition
  isRepeatable : Bool
  locations : List String
  deriving Repr, Inhabited

inductive Definition where
  | operation (definition : Operation)
  | fragment (definition : Fragment)
  | schema (definition : SchemaDefinition)
  | type (definition : TypeDefinition)
  | directive (definition : DirectiveDefinition)
  | schemaExtension (definition : SchemaDefinition)
  | typeExtension (definition : TypeDefinition)
  deriving Repr, Inhabited

structure Document where
  definitions : List Definition
  deriving Repr, Inhabited

namespace Document

def operations (document : Document) : List Operation :=
  document.definitions.filterMap fun
    | .operation definition => some definition
    | _ => none

def fragments (document : Document) : List Fragment :=
  document.definitions.filterMap fun
    | .fragment definition => some definition
    | _ => none

def types (document : Document) : List TypeDefinition :=
  document.definitions.filterMap fun
    | .type definition => some definition
    | _ => none

def typeExtensions (document : Document) : List TypeDefinition :=
  document.definitions.filterMap fun
    | .typeExtension definition => some definition
    | _ => none

def directives (document : Document) : List DirectiveDefinition :=
  document.definitions.filterMap fun
    | .directive definition => some definition
    | _ => none

def schemas (document : Document) : List SchemaDefinition :=
  document.definitions.filterMap fun
    | .schema definition => some definition
    | _ => none

def schemaExtensions (document : Document) : List SchemaDefinition :=
  document.definitions.filterMap fun
    | .schemaExtension definition => some definition
    | _ => none

def fragment? (document : Document) (name : String) : Option Fragment :=
  document.fragments.find? (·.name == name)

end Document

end QueryShape.Source
