import QueryShape.Source.Basic
import QueryShape.Source.Token

/-!
# Reading documents

The grammar of documents, as functions from tokens to a part of a document and the remaining tokens.
Nested constructs are bounded by a depth, and repetitions by a count; the number of tokens is enough
for both, so that no written document exceeds them. `Document.parse` reads a whole document,
`Value.parse` a single literal and `parseType` a reference to a type.
-/

set_option autoImplicit false

namespace QueryShape.Source.Grammar

/-- Reads a part of a document off the front of the tokens. -/
abbrev Reader := StateT (List Token) (Except ParseError)

variable {α : Type}

def peek? : Reader (Option Token) := do
  return (← get).head?

def unexpected : Reader α := do
  match (← get) with
  | [] => throw .unexpectedEnd
  | token :: _ => throw (.unexpectedToken token)

def advance : Reader Unit :=
  modify List.tail

def accept (token : Token) : Reader Bool := do
  if (← peek?) = some token then
    advance
    return true
  return false

def expect (token : Token) : Reader Unit := do
  unless ← accept token do unexpected

def mark (text : String) : Token :=
  .punctuator text

def openBrace : Token := .punctuator "\x7b"

def closeBrace : Token := .punctuator "\x7d"

def name : Reader String := do
  match (← peek?) with
  | some (.name text) => advance; return text
  | _ => unexpected

def nameExcept (excluded : List String) : Reader String := do
  match (← peek?) with
  | some (.name text) => if text ∈ excluded then unexpected else advance; return text
  | _ => unexpected

/-- Items up to the closing token, at most as many as the bound. -/
def itemsUntil (closing : Token) (item : Reader α) : Nat → Reader (List α)
  | 0 => unexpected
  | bound + 1 => do
    if ← accept closing then return []
    let first ← item
    return first :: (← itemsUntil closing item bound)

def anyBetween (opening closing : Token) (item : Reader α) : Reader (List α) := do
  expect opening
  itemsUntil closing item ((← get).length + 1)

def someBetween (opening closing : Token) (item : Reader α) : Reader (List α) := do
  expect opening
  let first ← item
  return first :: (← itemsUntil closing item ((← get).length + 1))

def optionalBetween (opening closing : Token) (item : Reader α) : Reader (List α) := do
  if (← peek?) = some opening then someBetween opening closing item else return []

def itemsAfter (separator : Token) (item : Reader α) : Nat → Reader (List α)
  | 0 => return []
  | bound + 1 => do
    unless ← accept separator do return []
    let first ← item
    return first :: (← itemsAfter separator item bound)

/-- At least one item; the separator stands between items, and may stand before the first. -/
def separated (separator : Token) (item : Reader α) : Reader (List α) := do
  let _ ← accept separator
  let first ← item
  return first :: (← itemsAfter separator item ((← get).length))

def itemsWhile (starting : Token) (item : Reader α) : Nat → Reader (List α)
  | 0 => return []
  | bound + 1 => do
    if (← peek?) = some starting then
      let first ← item
      return first :: (← itemsWhile starting item bound)
    return []

def variableName : Reader String := do
  expect (mark "$")
  name

/-- A literal; where only constants are allowed, a variable is refused. -/
def value (constant : Bool) : Nat → Reader Value
  | 0 => unexpected
  | depth + 1 => do
    match (← peek?) with
    | some (.punctuator text) =>
      if text = "[" then
        return .list (← anyBetween (mark "[") (mark "]") (value constant depth))
      else if text = "\x7b" then
        let field : Reader (String × Value) := do
          let key ← name
          expect (mark ":")
          return (key, ← value constant depth)
        return .object (← anyBetween openBrace closeBrace field)
      else if text = "$" ∧ constant = false then
        return .var (← variableName)
      else unexpected
    | some (.int numeral) => advance; return .int numeral
    | some (.float numeral) => advance; return .float numeral
    | some (.string text) => advance; return .string text false
    | some (.blockString text) => advance; return .string text true
    | some (.name text) =>
      advance
      return if text = "true" then .boolean true
        else if text = "false" then .boolean false
        else if text = "null" then .null
        else .enum text
    | none => unexpected

def type : Nat → Reader TypeRef
  | 0 => unexpected
  | depth + 1 => do
    let inner ←
      if ← accept (mark "[") then do
        let item ← type depth
        expect (mark "]")
        pure (TypeRef.list item)
      else do
        pure (TypeRef.named (← name))
    if ← accept (mark "!") then return .nonNull inner
    return inner

/-- A bound on the nesting of whatever the remaining tokens hold. -/
def remaining : Reader Nat := do
  return (← get).length + 1

def argument (constant : Bool) : Reader Argument := do
  let key ← name
  expect (mark ":")
  return { name := key, value := ← value constant (← remaining) }

def arguments (constant : Bool) : Reader (List Argument) :=
  optionalBetween (mark "(") (mark ")") (argument constant)

def directive (constant : Bool) : Reader Directive := do
  expect (mark "@")
  let key ← name
  return { name := key, arguments := ← arguments constant }

def directives (constant : Bool) : Reader (List Directive) := do
  itemsWhile (mark "@") (directive constant) (← remaining)

def typeReference : Reader TypeRef := do
  type (← remaining)

def fragmentName : Reader String :=
  nameExcept ["on"]

def selection : Nat → Reader Selection
  | 0 => unexpected
  | depth + 1 => do
    let nested := someBetween openBrace closeBrace (selection depth)
    if ← accept (mark "...") then
      if ← accept (.name "on") then
        let condition ← name
        let ds ← directives false
        return .inlineFragment (some condition) ds (← nested)
      match (← peek?) with
      | some (.name _) =>
        let spread ← fragmentName
        return .fragmentSpread spread (← directives false)
      | _ =>
        let ds ← directives false
        return .inlineFragment none ds (← nested)
    else
      let first ← name
      let (aliasName, fieldName) ←
        if ← accept (mark ":") then do pure (some first, ← name) else pure (none, first)
      let args ← arguments false
      let ds ← directives false
      let selections ← if (← peek?) = some openBrace then nested else pure []
      return .field aliasName fieldName args ds selections

def selectionSet : Reader (List Selection) := do
  someBetween openBrace closeBrace (selection (← remaining))

def defaultValue : Reader (Option Value) := do
  if ← accept (mark "=") then return some (← value true (← remaining))
  return none

def description : Reader (Option Description) := do
  match (← peek?) with
  | some (.string text) => advance; return some { text, isBlock := false }
  | some (.blockString text) => advance; return some { text, isBlock := true }
  | _ => return none

def variableDefinition : Reader VariableDefinition := do
  let described ← description
  let key ← variableName
  expect (mark ":")
  let declared ← typeReference
  let initial ← defaultValue
  return {
    description := described
    name := key
    type := declared
    defaultValue := initial
    directives := ← directives true }

def operationKind : Reader OperationKind := do
  match (← peek?) with
  | some (.name text) =>
    match [OperationKind.query, .mutation, .subscription].find? (·.keyword == text) with
    | some kind => advance; return kind
    | none => unexpected
  | _ => unexpected

def shortQuery : Reader Operation := do
  return {
    description := none
    kind := .query
    name := none
    variableDefinitions := []
    directives := []
    selections := ← selectionSet }

def operation (described : Option Description) : Reader Operation := do
  let kind ← operationKind
  let given ← match (← peek?) with
    | some (.name text) => do advance; pure (some text)
    | _ => pure none
  let variableDefinitions ← optionalBetween (mark "(") (mark ")") variableDefinition
  let ds ← directives false
  return {
    description := described
    kind
    name := given
    variableDefinitions
    directives := ds
    selections := ← selectionSet }

def fragment (described : Option Description) : Reader Fragment := do
  expect (.name "fragment")
  let key ← fragmentName
  expect (.name "on")
  let condition ← name
  let ds ← directives false
  return {
    description := described
    name := key
    typeCondition := condition
    directives := ds
    selections := ← selectionSet }

def inputValueDefinition : Reader InputValueDefinition := do
  let _ ← description
  let key ← name
  expect (mark ":")
  let declared ← typeReference
  let initial ← defaultValue
  return {
    name := key
    type := declared
    defaultValue := initial
    directives := ← directives true }

def argumentDefinitions : Reader (List InputValueDefinition) :=
  optionalBetween (mark "(") (mark ")") inputValueDefinition

def fieldDefinition : Reader FieldDefinition := do
  let text ← description
  let key ← name
  let args ← argumentDefinitions
  expect (mark ":")
  let declared ← typeReference
  return {
    description := text
    name := key
    arguments := args
    type := declared
    directives := ← directives true }

def interfaces : Reader (List String) := do
  if ← accept (.name "implements") then separated (mark "&") name else return []

def rootDefinition : Reader (OperationKind × String) := do
  let kind ← operationKind
  expect (mark ":")
  return (kind, ← name)

def directiveLocations : List String :=
  ["QUERY", "MUTATION", "SUBSCRIPTION", "FIELD", "FRAGMENT_DEFINITION", "FRAGMENT_SPREAD",
   "INLINE_FRAGMENT", "VARIABLE_DEFINITION", "SCHEMA", "SCALAR", "OBJECT", "FIELD_DEFINITION",
   "ARGUMENT_DEFINITION", "INTERFACE", "UNION", "ENUM", "ENUM_VALUE", "INPUT_OBJECT",
   "INPUT_FIELD_DEFINITION", "DIRECTIVE_DEFINITION"]

def directiveLocation : Reader String := do
  match (← peek?) with
  | some (.name text) => if text ∈ directiveLocations then advance; return text else unexpected
  | _ => unexpected

def directiveDefinition : Reader DirectiveDefinition := do
  expect (.name "directive")
  expect (mark "@")
  let key ← name
  let args ← argumentDefinitions
  let isRepeatable ← accept (.name "repeatable")
  expect (.name "on")
  return {
    name := key
    arguments := args
    isRepeatable
    locations := ← separated (mark "|") directiveLocation }

def enumValue : Reader EnumValueDefinition := do
  let _ ← description
  let value ← nameExcept ["true", "false", "null"]
  return { name := value, directives := ← directives true }

def typeKeywords : List String :=
  ["scalar", "type", "interface", "union", "enum", "input"]

/-- The definition of a type, with the number of its parts that are given: interfaces, directives
and members. An extension needs at least one of them. -/
def typeDefinition : Reader (TypeDefinition × Nat) := do
  let keyword ← name
  let key ← name
  let given {β : Type} (parts : List β) : Nat := parts.length
  match keyword with
  | "scalar" =>
    let ds ← directives true
    return (⟨key, ds, .scalar⟩, given ds)
  | "type" =>
    let parents ← interfaces
    let ds ← directives true
    let fields ← optionalBetween openBrace closeBrace fieldDefinition
    return (⟨key, ds, .object parents fields⟩, given parents + given ds + given fields)
  | "interface" =>
    let parents ← interfaces
    let ds ← directives true
    let fields ← optionalBetween openBrace closeBrace fieldDefinition
    return (⟨key, ds, .interface parents fields⟩, given parents + given ds + given fields)
  | "union" =>
    let ds ← directives true
    let members ← if ← accept (mark "=") then separated (mark "|") name else pure []
    return (⟨key, ds, .union members⟩, given ds + given members)
  | "enum" =>
    let ds ← directives true
    let values ← optionalBetween openBrace closeBrace enumValue
    return (⟨key, ds, .enum values⟩, given ds + given values)
  | "input" =>
    let ds ← directives true
    let fields ← optionalBetween openBrace closeBrace inputValueDefinition
    return (⟨key, ds, .inputObject fields⟩, given ds + given fields)
  | _ => unexpected

def schemaDefinition : Reader Definition := do
  expect (.name "schema")
  let ds ← directives true
  return .schema ⟨ds, ← someBetween openBrace closeBrace rootDefinition⟩

def extension : Reader Definition := do
  expect (.name "extend")
  if ← accept (.name "schema") then
    let ds ← directives true
    let roots ← optionalBetween openBrace closeBrace rootDefinition
    if ds.isEmpty && roots.isEmpty then unexpected
    return .schemaExtension ⟨ds, roots⟩
  match (← peek?) with
  | some (.name keyword) =>
    if keyword ∈ typeKeywords then
      let (extended, parts) ← typeDefinition
      if parts = 0 then unexpected
      return .typeExtension extended
    else unexpected
  | _ => unexpected

/-- A definition. A selection set alone and an extension have no description. -/
def definition : Reader Definition := do
  let described ← description
  match (← peek?) with
  | some (.name keyword) =>
    if keyword = "schema" then schemaDefinition
    else if keyword = "directive" then return .directive (← directiveDefinition)
    else if keyword ∈ typeKeywords then return .type (← typeDefinition).1
    else if keyword = "fragment" then return .fragment (← fragment described)
    else if keyword = "extend" then
      if described.isSome then unexpected else extension
    else return .operation (← operation described)
  | some token =>
    if token = openBrace ∧ described.isNone then return .operation (← shortQuery) else unexpected
  | none => unexpected

def definitionsToEnd : Nat → Reader (List Definition)
  | 0 => return []
  | bound + 1 => do
    if (← peek?) = none then return []
    let first ← definition
    return first :: (← definitionsToEnd bound)

def document : Reader Document := do
  let first ← definition
  return { definitions := first :: (← definitionsToEnd (← get).length) }

def complete (part : Reader α) : Reader α := do
  let result ← part
  if (← peek?) = none then return result else unexpected

def parse (part : Reader α) (text : String) : Except ParseError α := do
  (complete part).run' (← Token.scan text)

end Grammar

def Document.parse (text : String) : Except ParseError Document :=
  Grammar.parse Grammar.document text

def Value.parse (text : String) : Except ParseError Value :=
  Grammar.parse (do Grammar.value false (← Grammar.remaining)) text

def parseType (text : String) : Except ParseError TypeRef :=
  Grammar.parse Grammar.typeReference text

end QueryShape.Source
