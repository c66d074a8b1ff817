import QueryShape.Source.Parser
import QueryShape.Validity.Definitions

/-!
# Schemas from texts

A schema is read from a text of definitions, which have to follow the rules about definitions.
-/

set_option autoImplicit false

namespace QueryShape

inductive SchemaError where
  | parsing (error : Source.ParseError)
  | invalidDefinitions
  /-- The reason of a deprecation or the specification of a scalar is no text. -/
  | invalidReason
  deriving Repr

def Schema.parse (text : String) : Except SchemaError Schema := do
  let document ← (Source.Document.parse text).mapError .parsing
  let schema := Schema.ofDocument document
  unless Validity.definitionsValid schema document do throw .invalidDefinitions
  unless Validity.reasonsFit document do throw .invalidReason
  return schema.settled

end QueryShape
