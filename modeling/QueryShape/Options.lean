import QueryShape.Data

/-!
# Options

The options of compiling and flattening a document, read from pairs of a name and a value. An option
has one name in camel case and one in snake case. The first pair that cannot be read decides the
error: its name is unknown, or its setting was given before, or its value is not a boolean where one
is needed.
-/

set_option autoImplicit false

namespace QueryShape

structure Options where
  /-- Whether a `__typename` field is added to every selection set of a field or fragment. -/
  addTypename : Bool := false
  /-- Whether the fields of spread fragments become fields of the spreading selection set. -/
  mergeSpreadFields : Bool := true
  passthroughCustomScalars : Bool := false
  /-- Any value; it is only handed on. -/
  customScalarsPrefix : Data := .string ""
  /-- Any value; it is only handed on. -/
  namespaceValue : Data := .null
  generateOperationIds : Bool := false
  /-- Whether inline fragments without fields are left out unless they list further fragments. -/
  omitEmptyInlineFragments : Bool := true
  deriving Repr, Inhabited

inductive Setting where
  | addTypename
  | mergeSpreadFields
  | passthroughCustomScalars
  | customScalarsPrefix
  | namespaceValue
  | generateOperationIds
  | omitEmptyInlineFragments
  deriving DecidableEq, Repr

namespace Setting

def all : List Setting :=
  [addTypename, mergeSpreadFields, passthroughCustomScalars, customScalarsPrefix, namespaceValue,
   generateOperationIds, omitEmptyInlineFragments]

def camelName : Setting → String
  | addTypename => "addTypename"
  | mergeSpreadFields => "mergeInFieldsFromFragmentSpreads"
  | passthroughCustomScalars => "passthroughCustomScalars"
  | customScalarsPrefix => "customScalarsPrefix"
  | namespaceValue => "namespace"
  | generateOperationIds => "generateOperationIds"
  | omitEmptyInlineFragments => "omitEmptyInlineFragments"

def snakeName : Setting → String
  | addTypename => "add_typename"
  | mergeSpreadFields => "merge_in_fields_from_fragment_spreads"
  | passthroughCustomScalars => "passthrough_custom_scalars"
  | customScalarsPrefix => "custom_scalars_prefix"
  | namespaceValue => "namespace"
  | generateOperationIds => "generate_operation_ids"
  | omitEmptyInlineFragments => "omit_empty_inline_fragments"

def ofName? (name : String) : Option Setting :=
  all.find? fun setting => name = setting.camelName ∨ name = setting.snakeName

def acceptedNames : List String :=
  ((all.flatMap fun setting => [setting.camelName, setting.snakeName]).eraseDups).mergeSort
    fun a b => decide (a ≤ b)

end Setting

inductive OptionError where
  | unknown (name : String)
  | repeated (setting : Setting)
  | notBoolean (name : String) (value : Data)
  deriving Repr

def OptionError.message : OptionError → String
  | unknown name =>
    "Unexpected compiler option " ++ name ++ ". Expected one of: " ++
      Text.quotedList Setting.acceptedNames
  | repeated setting =>
    "Compiler option " ++ setting.snakeName ++ " was specified more than once."
  | notBoolean name value =>
    "Expected a boolean value for compiler option " ++ name ++ ", but got: " ++ value.display

namespace Options

/-- The options with one setting changed, unless it needs a boolean and gets another value. -/
def set? (options : Options) : Setting → Data → Option Options
  | .addTypename, .bool value => some { options with addTypename := value }
  | .mergeSpreadFields, .bool value => some { options with mergeSpreadFields := value }
  | .passthroughCustomScalars, .bool value =>
    some { options with passthroughCustomScalars := value }
  | .customScalarsPrefix, value => some { options with customScalarsPrefix := value }
  | .namespaceValue, value => some { options with namespaceValue := value }
  | .generateOperationIds, .bool value => some { options with generateOperationIds := value }
  | .omitEmptyInlineFragments, .bool value =>
    some { options with omitEmptyInlineFragments := value }
  | _, _ => none

/-- Reads further pairs, after pairs for the given settings have been read into the options. -/
def readFrom (given : List Setting) (options : Options) :
    List (String × Data) → Except OptionError Options
  | [] => .ok options
  | (name, value) :: rest =>
    match Setting.ofName? name with
    | none => .error (.unknown name)
    | some setting =>
      if setting ∈ given then .error (.repeated setting)
      else
        match options.set? setting value with
        | none => .error (.notBoolean name value)
        | some changed => readFrom (setting :: given) changed rest

def read (pairs : List (String × Data)) : Except OptionError Options :=
  readFrom [] {} pairs

end Options

end QueryShape
